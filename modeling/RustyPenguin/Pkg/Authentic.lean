import RustyPenguin.Foundation.Trace
import RustyPenguin.Pkg.Repository

/-!
# What is installed is authentic

Under a key, the index that is cached is to be one whose signature was checked with this key; then
what is installed is listed in such an index, with its digest.

An update that ends between the download and the check breaks this, and so does a key that is
provisioned when there is an index already; a package without a digest is not checked. In every
history without these, whatever is installed is authentic (`authentic_of_each`).
-/

set_option autoImplicit false

namespace RustyPenguin.Pkg

open Foundation Files

/-! ## What is authentic -/

section Authenticity

variable (lib : Libraries)

/-- The index was checked with the key, and the check was passed. -/
def Verified (verified : List (Bytes × Bytes × Bytes)) (key index : Bytes) : Prop :=
  ∃ t ∈ verified, t.1 = key ∧ t.2.1 = index

/-- What was installed is listed in an index that was verified under the key, with its digest. -/
structure Authentic (verified : List (Bytes × Bytes × Bytes)) (r : Installed) (key : Bytes) :
    Prop where
  verified : Verified verified key r.index
  signed : ∃ sig, verifySig lib r.index sig key = .ok ()
  listed : ∃ text, fromUtf8 r.index = some text ∧ r.entry ∈ (RepoIndex.parse text).pkgs
  digest : ∃ want, r.entry.sha256 = some want ∧ eqIgnoreAsciiCase (hexDigest lib r.bytes) want

/-- Whatever was installed under a key is authentic. -/
def Repo.AllAuthentic (s : Repo) : Prop :=
  ∀ r ∈ s.installed, ∀ key ∈ r.pubkey, Authentic lib s.verified r key

/-- The index that is cached under a key was verified under it. -/
structure Repo.Trusted (s : Repo) : Prop where
  checked : ∀ t ∈ s.verified, verifySig lib t.2.1 t.2.2 t.1 = .ok ()
  cached : ∀ key ∈ s.pubkey, ∀ index ∈ s.cache, Verified s.verified key index
  authentic : s.AllAuthentic lib

/-! ## What a call needs -/

/-- The update gets to the end of the check: the index, the key and the signature are read, and an
index that does not pass is removed. -/
def UpdateEnv.Concludes (s : Repo) (env : UpdateEnv) : Prop :=
  env.wget.success ∧ env.readable ∧ env.stat ∧ env.keyReadable ∧
    if env.sig.ok then
      ∃ sig ∈ readFile env.sigReadable env.sig.left, env.removed ∨
        ∀ index ∈ env.wget.left, ∀ key ∈ s.pubkey, verifySig lib index sig key = .ok ()
    else env.removed

/-- Under a key, an update that starts its download leaves no file or the one that was there, or gets
to the end of the check. -/
def UpdateEnv.Clear (s : Repo) (env : UpdateEnv) : Prop :=
  s.pubkey.isSome → env.mkdir → env.wget.spawned →
    env.wget.left = none ∨ env.wget.left = s.cache ∨ env.Concludes lib s

/-- A key that is written is the one that was there, or one under which the index, if there is one,
was verified. -/
def KeyEnv.Clear (s : Repo) (env : KeyEnv) : Prop :=
  ∀ bytes ∈ readFile env.readable env.wget.left, bytes.length = 32 →
    ∀ key ∈ (if env.written.2 then some bytes else env.written.1), s.pubkey = some key ∨
      ∀ index ∈ s.cache, Verified s.verified key index

/-- Under a key, the packages in the order have digests. -/
def InstallEnv.Clear (s : Repo) (name : String) (env : InstallEnv) : Prop :=
  s.pubkey.isSome → ∀ index ∈ s.cache, ∀ text ∈ fromUtf8 index, ∀ order,
    (RepoIndex.parse text).resolve name (isInstalled s env.dirReadable) = .ok order →
    ∀ n ∈ order, ∀ pkg ∈ (RepoIndex.parse text).get n, pkg.sha256.isSome

def Call.Clear (s : Repo) : Call → Prop
  | .updateRepo _ env => env.Clear lib s
  | .provisionKey arg env => arg ≠ "clear" → env.mkdir → isUrl arg → env.wget.ok → env.Clear s
  | .installByName name env => env.Clear s name

end Authenticity

/-! ## Updates and keys -/

section Calls

variable {lib : Libraries} {s : Repo} {key index : Bytes}

/-- Other files do not matter. -/
theorem Repo.Trusted.withCache {cache sigTmp : Option Bytes} (trusted : s.Trusted lib)
    (known : ∀ key ∈ s.pubkey, ∀ index ∈ cache, Verified s.verified key index) :
    ({ s with cache, sigTmp } : Repo).Trusted lib :=
  ⟨trusted.checked, known, trusted.authentic⟩

/-- Another check that was passed. -/
theorem Repo.Trusted.withVerified {sig : Bytes} {cache sigTmp : Option Bytes}
    (trusted : s.Trusted lib) (isKey : s.pubkey = some key) (isCache : cache = some index)
    (good : verifySig lib index sig key = .ok ()) :
    ({ s with
        cache
        sigTmp
        verified := (key, index, sig) :: s.verified } : Repo).Trusted lib := by
  refine ⟨?_, ?_, ?_⟩
  · intro t mem
    rcases List.mem_cons.mp mem with rfl | old
    · exact good
    · exact trusted.checked t old
  · intro key' isKey' index' isIndex
    cases isKey.symm.trans isKey'
    cases isCache.symm.trans isIndex
    exact ⟨_, List.mem_cons_self, rfl, rfl⟩
  · intro r mem key' isKey'
    have old := trusted.authentic r mem key' isKey'
    obtain ⟨t, inside, same⟩ := old.verified
    exact ⟨⟨t, List.mem_cons_of_mem _ inside, same⟩, old.signed, old.listed, old.digest⟩

theorem readFile_eq_some {readable : Bool} {file : Option Bytes} {bytes : Bytes}
    (read : readFile readable file = some bytes) : file = some bytes := by
  cases readable with
  | false => cases read
  | true => exact read

theorem mem_removeFile {removed : Bool} {file : Option Bytes} {bytes : Bytes}
    (mem : bytes ∈ removeFile removed file) : removed = false ∧ bytes ∈ file := by
  cases removed with
  | false => exact ⟨rfl, mem⟩
  | true => cases mem

/-- **An update** that is clear leaves a trusted state. -/
theorem Repo.Trusted.update (trusted : s.Trusted lib) (url : String) {env : UpdateEnv}
    (clear : env.Clear lib s) : (updateRepo lib s url env).1.Trusted lib := by
  rw [updateRepo]
  split
  · exact trusted
  split
  · exact trusted
  rename_i made started
  dsimp only
  rw [Bool.not_eq_true, Bool.not_eq_false'] at made started
  -- what may be left of the download when the update does not get to the end of the check
  have left : ¬env.Concludes lib s → ∀ key ∈ s.pubkey, ∀ index ∈ env.wget.left,
      Verified s.verified key index := by
    intro open_ key isKey index isLeft
    rcases clear (Option.isSome_of_mem isKey) made started with none | same | done
    · rw [none] at isLeft
      cases isLeft
    · rw [same] at isLeft
      exact trusted.cached key isKey index isLeft
    · exact absurd done open_
  split
  · rename_i failed
    refine trusted.withCache (left fun done => ?_)
    rw [done.1] at failed
    cases failed
  split
  · rename_i unread
    refine trusted.withCache fun key isKey index isLeft => left (fun done => ?_) key isKey index isLeft
    rw [readFile, if_pos done.2.1, Option.mem_def.mp isLeft] at unread
    cases unread
  rename_i index isRead
  have isLeft : env.wget.left = some index := readFile_eq_some isRead
  split
  · rename_i signed
    rw [Bool.and_eq_true] at signed
    split
    · rename_i unread
      refine trusted.withCache (left fun done => ?_)
      rw [readFile, if_pos done.2.2.2.1] at unread
      rw [unread] at signed
      cases signed.1
    rename_i pubkey isRead'
    have isKey : s.pubkey = some pubkey := readFile_eq_some isRead'
    split
    · rename_i noSig
      refine trusted.withCache ?_
      intro key isKey index mem
      obtain ⟨kept, mem⟩ := mem_removeFile mem
      refine left (fun done => ?_) key isKey index mem
      have removed := done.2.2.2.2
      rw [if_neg (by rwa [Bool.not_eq_true, ← Bool.not_eq_true'])] at removed
      cases kept.symm.trans removed
    rename_i hasSig
    rw [Bool.not_eq_true, Bool.not_eq_false'] at hasSig
    have isInto : env.sig.into s.sigTmp = env.sig.left := by
      rw [Wget.ok, Bool.and_eq_true] at hasSig
      rw [Wget.into, if_pos hasSig.1]
    split
    · rename_i unread
      refine trusted.withCache (left fun done => ?_)
      have reads := done.2.2.2.2
      rw [if_pos hasSig] at reads
      obtain ⟨sig, isSig, -⟩ := reads
      rw [← isInto] at isSig
      cases unread.symm.trans isSig
    rename_i sig isSig
    have isSig' : readFile env.sigReadable env.sig.left = some sig := by
      rw [← isInto]
      exact isSig
    split
    · rename_i e bad
      refine trusted.withCache ?_
      intro key isKey' index' mem
      obtain ⟨kept, mem⟩ := mem_removeFile mem
      refine left (fun done => ?_) key isKey' index' mem
      have passes := done.2.2.2.2
      rw [if_pos hasSig] at passes
      obtain ⟨sig', there, removed | good⟩ := passes
      · cases kept.symm.trans removed
      · cases isSig'.symm.trans there
        cases bad.symm.trans (good index isLeft pubkey isKey)
    · rename_i good
      exact trusted.withVerified isKey isLeft good
  · rename_i unsigned
    refine trusted.withCache fun key isKey => left (fun done => ?_) key isKey
    refine unsigned ?_
    rw [Bool.and_eq_true]
    exact ⟨Option.isSome_of_mem isKey, done.2.2.1⟩

/-- **A key** that is clear leaves a trusted state. -/
theorem Repo.Trusted.provision (trusted : s.Trusted lib) {arg : String} {env : KeyEnv}
    (clear : (Call.provisionKey arg env).Clear lib s) : (provisionKey s arg env).1.Trusted lib := by
  have withKey : ∀ pubkey keyTmp : Option Bytes,
      (∀ key ∈ pubkey, s.pubkey = some key ∨ ∀ index ∈ s.cache, Verified s.verified key index) →
      ({ s with pubkey, keyTmp } : Repo).Trusted lib := by
    intro pubkey keyTmp known
    refine ⟨trusted.checked, ?_, trusted.authentic⟩
    intro key isKey index isIndex
    rcases known key isKey with same | verified
    · exact trusted.cached key same index isIndex
    · exact verified index isIndex
  have old : ∀ key ∈ s.pubkey, s.pubkey = some key ∨ ∀ index ∈ s.cache, Verified s.verified key index :=
    fun key isKey => Or.inl isKey
  rw [provisionKey]
  split
  · exact trusted
  rename_i made
  split
  · refine withKey _ s.keyTmp ?_
    intro key isKey
    exact old key (mem_removeFile isKey).2
  rename_i notClear
  split
  · exact trusted
  rename_i url
  dsimp only
  split
  · exact withKey _ _ old
  rename_i fetched
  rw [Bool.not_eq_true, Bool.not_eq_false'] at made url fetched
  have isInto : env.wget.into s.keyTmp = env.wget.left := by
    rw [Wget.ok, Bool.and_eq_true] at fetched
    rw [Wget.into, if_pos fetched.1]
  split
  · exact withKey _ _ old
  rename_i bytes isRead
  rw [isInto] at isRead
  split
  · exact withKey _ _ old
  rename_i size
  have known := clear notClear made url fetched bytes isRead (Decidable.not_not.mp size)
  split
  · rename_i written
    rw [if_pos written] at known
    exact withKey _ _ known
  · rename_i unwritten
    rw [if_neg unwritten] at known
    exact withKey _ _ known

/-! ## Installations -/

/-- What the trust is about stays. -/
structure SameTrust (s s' : Repo) : Prop where
  cache : s'.cache = s.cache
  pubkey : s'.pubkey = s.pubkey
  verified : s'.verified = s.verified

theorem Repo.Trusted.of_same {s' : Repo} (trusted : s.Trusted lib) (same : SameTrust s s')
    (authentic : ∀ r ∈ s'.installed, r ∈ s.installed ∨
      ∀ key ∈ r.pubkey, Authentic lib s.verified r key) : s'.Trusted lib := by
  refine ⟨?_, ?_, ?_⟩
  · rw [same.verified]
    exact trusted.checked
  · rw [same.pubkey, same.cache, same.verified]
    exact trusted.cached
  · intro r mem
    rw [same.verified]
    rcases authentic r mem with old | new
    · exact trusted.authentic r old
    · exact new

theorem fetchRemote_same (s : Repo) (url : String) (env : FetchEnv) :
    SameTrust s (fetchRemote s url env).1 ∧ (fetchRemote s url env).1.installed = s.installed := by
  rw [fetchRemote]
  dsimp only
  split_ifs
  · exact ⟨⟨rfl, rfl, rfl⟩, rfl⟩
  · exact ⟨⟨rfl, rfl, rfl⟩, rfl⟩
  · exact ⟨⟨rfl, rfl, rfl⟩, rfl⟩
  · exact ⟨⟨rfl, rfl, rfl⟩, rfl⟩
  · exact ⟨⟨rfl, rfl, rfl⟩, rfl⟩

/-- What an installation leaves: the trust as it was, and a log of what was there and at most the file
that was installed. -/
structure InstallLeaves (s : Repo) (path : String) (index : Bytes) (entry : RepoPkg) (s' : Repo) :
    Prop where
  same : SameTrust s s'
  log : ∀ r ∈ s'.installed, r ∈ s.installed ∨
    ∃ bytes ∈ s.downloads path, r = ⟨s.pubkey, index, entry, bytes⟩

theorem installFile_same (s : Repo) (path : String) (index : Bytes) (entry : RepoPkg)
    (env : FetchEnv) : InstallLeaves s path index entry (installFile s path index entry env).1 := by
  have either {c : Prop} [Decidable c] {a b : Repo × Except String String}
      (first : InstallLeaves s path index entry a.1) (second : InstallLeaves s path index entry b.1) :
      InstallLeaves s path index entry (if c then a else b).1 := by
    split
    · exact first
    · exact second
  have still : InstallLeaves s path index entry s := ⟨⟨rfl, rfl, rfl⟩, fun r mem => Or.inl mem⟩
  refine either still (either still (either still (either still (either still ?_))))
  dsimp only
  split
  · exact ⟨⟨rfl, rfl, rfl⟩, fun r mem => Or.inl mem⟩
  · rename_i bytes isRead
    have isFile : s.downloads path = some bytes := readFile_eq_some isRead
    have logged : ∀ r ∈ (⟨s.pubkey, index, entry, bytes⟩ : Installed) :: s.installed,
        r ∈ s.installed ∨ ∃ bytes ∈ s.downloads path, r = ⟨s.pubkey, index, entry, bytes⟩ := by
      intro r mem
      rcases List.mem_cons.mp mem with rfl | old
      · exact Or.inr ⟨bytes, isFile, rfl⟩
      · exact Or.inl old
    refine either ?_ (either ?_ ?_)
    all_goals exact ⟨⟨rfl, rfl, rfl⟩, logged⟩

/-- **The loop** installs what the trusted index lists, with digests under a key. -/
theorem Repo.Trusted.installAll {text log : String} {env : InstallEnv} {order : List String}
    (trusted : s.Trusted lib) (isCache : s.cache = some index) (isText : fromUtf8 index = some text)
    (digests : s.pubkey.isSome → ∀ n ∈ order, ∀ pkg ∈ (RepoIndex.parse text).get n,
      pkg.sha256.isSome) :
    (Pkg.installAll lib s index (RepoIndex.parse text) env log order).1.Trusted lib := by
  induction order generalizing s log with
  | nil => exact trusted
  | cons n order ih =>
    rw [Pkg.installAll]
    split
    · exact trusted
    rename_i pkg found
    obtain ⟨same, log'⟩ := fetchRemote_same s pkg.url (env.fetch n)
    have fetched := trusted.of_same same (fun r mem => Or.inl (log' ▸ mem))
    split
    · rename_i s' e isFetch
      rw [isFetch] at fetched
      exact fetched
    rename_i s' path isFetch
    rw [isFetch] at fetched same
    have listed : pkg ∈ (RepoIndex.parse text).pkgs := List.mem_of_find?_eq_some found
    -- an installation of the file that was downloaded, with what was found out about it
    have install : (∀ bytes ∈ s'.downloads path, s'.pubkey.isSome → ∃ want, pkg.sha256 = some want ∧
          eqIgnoreAsciiCase (hexDigest lib bytes) want) →
        (installFile s' path index pkg (env.fetch n)).1.Trusted lib ∧ ∀ log : String,
          (Pkg.installAll lib (installFile s' path index pkg (env.fetch n)).1 index
            (RepoIndex.parse text) env log order).1.Trusted lib := by
      intro digest
      obtain ⟨same', log'⟩ := installFile_same s' path index pkg (env.fetch n)
      have next := fetched.of_same same' (fun r mem => (log' r mem).imp_right ?_)
      · refine ⟨next, fun log => ih next (same'.cache.trans (same.cache.trans isCache)) ?_⟩
        rw [same'.pubkey, same.pubkey]
        exact fun isKey m mem => digests isKey m (List.mem_cons_of_mem _ mem)
      · rintro ⟨bytes, isFile, rfl⟩ key isKey
        have verified := fetched.cached key isKey index (same.cache.trans isCache)
        obtain ⟨t, inside, rfl, rfl⟩ := verified
        exact ⟨⟨t, inside, rfl, rfl⟩, ⟨t.2.2, fetched.checked t inside⟩, ⟨text, isText, listed⟩,
          digest bytes isFile (Option.isSome_of_mem isKey)⟩
    dsimp only
    split
    · rename_i none
      obtain ⟨held, later⟩ := install fun bytes _ isKey => by
        rw [same.pubkey] at isKey
        have some := digests isKey n List.mem_cons_self pkg found
        rw [none] at some
        cases some
      split
      · rename_i s'' e isInstall
        rw [isInstall] at held
        exact held
      · rename_i s'' line isInstall
        rw [isInstall] at later
        exact later _
    rename_i want isWant
    split
    · exact fetched
    rename_i bytes isRead
    have isFile : s'.downloads path = some bytes := readFile_eq_some isRead
    split
    · rename_i equal
      obtain ⟨held, later⟩ := install fun bytes' isFile' _ => ⟨want, isWant, by
        cases isFile.symm.trans isFile'
        exact equal⟩
      split
      · rename_i s'' e isInstall
        rw [isInstall] at held
        exact held
      · rename_i s'' line isInstall
        rw [isInstall] at later
        exact later _
    · exact fetched.of_same ⟨rfl, rfl, rfl⟩ (fun r mem => Or.inl mem)

/-- **An installation** that is clear leaves a trusted state. -/
theorem Repo.Trusted.install (trusted : s.Trusted lib) {name : String} {env : InstallEnv}
    (clear : env.Clear s name) : (installByName lib s name env).1.Trusted lib := by
  rw [installByName]
  split
  · exact trusted
  rename_i index text isIndex
  obtain ⟨index', isRead, isPair⟩ := Option.bind_eq_some_iff.mp isIndex
  obtain ⟨text', isText, same⟩ := Option.map_eq_some_iff.mp isPair
  cases same
  have isCache : s.cache = some index := readFile_eq_some isRead
  dsimp only
  split
  · exact trusted
  rename_i order isOrder
  split
  · exact trusted
  have installed : (Pkg.installAll lib s index (RepoIndex.parse text) env "" order).1.Trusted lib :=
    trusted.installAll isCache isText
      (fun isKey => clear isKey index isCache text isText order isOrder)
  split
  · rename_i s' e isInstall
    rw [isInstall] at installed
    exact installed
  · rename_i s' log isInstall
    rw [isInstall] at installed
    exact installed

end Calls

/-! ## A small repository -/

/-- The files before the first call. -/
def Repo.fresh (downloads : String → Option Bytes) (packages : List String) : Repo :=
  { cache := none
    pubkey := none
    sigTmp := none
    keyTmp := none
    downloads := downloads
    packages := packages
    verified := []
    installed := [] }

def sampleKey : Bytes :=
  [234, 74, 108, 99, 226, 156, 82, 10, 190, 245, 80, 123, 19, 46, 197, 249, 149, 71, 118, 174, 190,
    190, 123, 146, 66, 30, 234, 105, 20, 70, 210, 44]

def sampleText : String :=
  "@pkg a 1 http://r/a.rpkg ba7816bf8f01cfea414140de5dae2223b00361a396177a9cb410ff61f20015ad\n"

/-- The only package of the text. -/
def samplePkg : RepoPkg :=
  { name := "a"
    version := "1"
    url := "http://r/a.rpkg"
    sha256 := some "ba7816bf8f01cfea414140de5dae2223b00361a396177a9cb410ff61f20015ad"
    deps := [] }

theorem parse_sampleText : RepoIndex.parse sampleText = ⟨[samplePkg]⟩ :=
  have parsed (text : Text) :
      RepoIndex.parse (String.ofList text) = ⟨(textLines text).filterMap parseLine⟩ := by
    rw [RepoIndex.parse, String.toList_ofList]
  (parsed _).trans rfl

/-- The signature of the text under the key. -/
def sampleSig : Bytes :=
  [146, 244, 135, 233, 151, 219, 214, 81, 242, 10, 139, 237, 42, 145, 211, 184, 90, 18, 105, 112, 89,
    120, 249, 184, 243, 115, 134, 152, 122, 19, 170, 117, 149, 92, 196, 161, 139, 135, 85, 66, 61, 236,
    250, 177, 250, 232, 241, 4, 39, 164, 232, 64, 155, 242, 252, 190, 248, 177, 14, 173, 152, 239, 4, 9]

/-- The libraries, on this signature and on a file of three bytes. -/
def sampleLibraries : Libraries where
  fromBytes _ := .ok ()
  verifyStrict key msg sig := key == sampleKey && msg == asBytes sampleText && sig == sampleSig
  sha256 bytes :=
    if bytes = [0x61, 0x62, 0x63] then
      [186, 120, 22, 191, 143, 1, 207, 234, 65, 65, 64, 222, 93, 174, 34, 35, 176, 3, 97, 163, 150, 23,
        122, 156, 180, 16, 255, 97, 242, 0, 21, 173]
    else []

def sampleProvision : Call :=
  .provisionKey "http://r/repo.pub" ⟨"", true, true, ⟨true, some sampleKey, true⟩, true, true, (none, true)⟩

/-- An update; the download reports this. -/
def sampleUpdate (success : Bool) : Call :=
  .updateRepo "http://r/repo.tern" ⟨"", true, ⟨true, some (asBytes sampleText), success⟩, true, true, true,
    ⟨true, some sampleSig, true⟩, true, true⟩

def sampleEnv : InstallEnv :=
  ⟨true, fun _ => true, fun _ =>
    ⟨"", ⟨true, some [0x61, 0x62, 0x63], true⟩, true, true, true, true, true, true, true, true⟩⟩

/-- The files after some calls. -/
def sampleAfter (calls : List Call) : Repo :=
  Trace.after (Repo.call sampleLibraries) (Repo.fresh (fun _ => none) []) calls

/-- The files with a key, and with an index that was not checked. -/
def sampleUnverified : Repo :=
  { Repo.fresh (fun _ => none) [] with
    cache := some (asBytes sampleText)
    pubkey := some sampleKey }

/-- The digest of the sample's three bytes is the one in the index. -/
theorem sample_digest :
    eqIgnoreAsciiCase (hexDigest sampleLibraries [0x61, 0x62, 0x63])
      "ba7816bf8f01cfea414140de5dae2223b00361a396177a9cb410ff61f20015ad" = true := by
  have lists (digest want : List Char) :
      eqIgnoreAsciiCase (String.ofList digest) (String.ofList want) =
        (digest.map Char.toLower == want.map Char.toLower) := by
    rw [eqIgnoreAsciiCase, String.toList_ofList, String.toList_ofList]
  exact (lists _ _).trans rfl

/-- The installation from the index that was not checked. -/
theorem installAll_sampleUnverified :
    let after := (installAll sampleLibraries sampleUnverified (asBytes sampleText) ⟨[samplePkg]⟩
      sampleEnv "" ["a"]).1
    after.installed.map (·.pubkey) = [some sampleKey] ∧ after.verified = [] := by
  have found : RepoIndex.get ⟨[samplePkg]⟩ "a" = some samplePkg := rfl
  have fetched : fetchRemote sampleUnverified samplePkg.url (sampleEnv.fetch "a") =
      (sampleUnverified.setDownload "/tmp/a.rpkg" (some [0x61, 0x62, 0x63]), .ok "/tmp/a.rpkg") := rfl
  have held : readFile (sampleEnv.fetch "a").readable
      ((sampleUnverified.setDownload "/tmp/a.rpkg" (some [0x61, 0x62, 0x63])).downloads
        "/tmp/a.rpkg") = some [0x61, 0x62, 0x63] := rfl
  rw [installAll, found]
  dsimp only
  rw [fetched]
  dsimp only [samplePkg]
  rw [held]
  dsimp only
  rw [if_pos sample_digest]
  exact ⟨rfl, rfl⟩

/-- A package without dependencies is the whole order. -/
theorem resolve_leaf {idx : RepoIndex} {installed : String → Bool} {name : String} {pkg : RepoPkg}
    (missing : installed name = false) (found : idx.get name = some pkg) (leaf : pkg.deps = []) :
    idx.resolve name installed = .ok [name] := by
  rw [RepoIndex.resolve, RepoIndex.visit, if_neg List.not_mem_nil, if_neg (by rw [missing]; decide),
    dif_neg List.not_mem_nil]
  split
  · rename_i none
    cases none.symm.trans found
  · rename_i pkg' found'
    cases found.symm.trans found'
    rw [leaf, RepoIndex.visitDeps]
    rfl

/-- An installation goes through its order. -/
theorem installByName_order {lib : Libraries} {s : Repo} {index : Bytes} {text name : String}
    {env : InstallEnv} {order : List String} (readable : env.readable = true)
    (isCache : s.cache = some index) (isText : fromUtf8 index = some text)
    (isOrder : (RepoIndex.parse text).resolve name (isInstalled s env.dirReadable) = .ok order)
    (full : order ≠ []) : (installByName lib s name env).1 =
      (installAll lib s index (RepoIndex.parse text) env "" order).1 := by
  rw [installByName, readFile, if_pos readable, isCache, Option.bind_some, isText, Option.map_some]
  dsimp only
  rw [isOrder]
  dsimp only
  rw [if_neg full]
  split
  · rename_i s' e isInstall
    rw [isInstall]
  · rename_i s' log isInstall
    rw [isInstall]

/-- What is installed under a key from an index that was not checked is not authentic. -/
theorem not_authentic_unverified (calls : List Call) (unchecked : sampleAfter calls = sampleUnverified) :
    ¬Trace.Always (Repo.call sampleLibraries) (Repo.fresh (fun _ => none) [])
      (fun s => s.AllAuthentic sampleLibraries) (calls ++ [.installByName "a" sampleEnv]) := by
  intro always
  have last := (Trace.always_concat.mp always).2
  have installed : Repo.call sampleLibraries sampleUnverified (.installByName "a" sampleEnv) =
      (installAll sampleLibraries sampleUnverified (asBytes sampleText) ⟨[samplePkg]⟩ sampleEnv ""
        ["a"]).1 := by
    have found : RepoIndex.get ⟨[samplePkg]⟩ "a" = some samplePkg := rfl
    rw [← parse_sampleText] at found ⊢
    exact installByName_order rfl rfl (fromUtf8_asBytes sampleText) (resolve_leaf rfl found rfl)
      (List.cons_ne_nil _ _)
  change Repo.AllAuthentic sampleLibraries
    (Repo.call sampleLibraries (sampleAfter calls) (.installByName "a" sampleEnv)) at last
  obtain ⟨logged, unverified⟩ := installAll_sampleUnverified
  rw [unchecked, installed] at last
  generalize (installAll sampleLibraries sampleUnverified (asBytes sampleText) ⟨[samplePkg]⟩
    sampleEnv "" ["a"]).1 = s at logged unverified last
  have key : some sampleKey ∈ s.installed.map (·.pubkey) := by
    rw [logged]
    exact List.mem_singleton_self _
  obtain ⟨r, mem, isKey⟩ := List.mem_map.mp key
  obtain ⟨t, inside, -⟩ := (last r mem sampleKey isKey).verified
  rw [unverified] at inside
  cases inside

/-! ## Histories of calls -/

theorem trusted_fresh (lib : Libraries) (downloads : String → Option Bytes) (packages : List String) :
    (Repo.fresh downloads packages).Trusted lib := by
  refine ⟨?_, ?_, ?_⟩
  · intro t mem
    cases mem
  · intro key isKey
    cases isKey
  · intro r mem
    cases mem

theorem trusted_call (lib : Libraries) (s : Repo) (call : Call) (trusted : s.Trusted lib)
    (clear : call.Clear lib s) : (s.call lib call).Trusted lib := by
  cases call with
  | updateRepo url env => exact trusted.update url clear
  | provisionKey arg env => exact trusted.provision clear
  | installByName name env => exact trusted.install clear

/-- **Whatever is installed under a key is authentic**, in every history of clear calls. -/
theorem authentic_of_each (lib : Libraries) (downloads : String → Option Bytes)
    (packages : List String) (calls : List Call)
    (clear : Trace.Each (Repo.call lib) (Repo.fresh downloads packages) (fun s call => call.Clear lib s)
      calls) :
    Trace.Always (Repo.call lib) (Repo.fresh downloads packages) (fun s => s.AllAuthentic lib) calls :=
  Trace.always_of_each (trusted_fresh lib downloads packages)
    (fun s call trusted clear => trusted_call lib s call trusted clear)
    (fun _ trusted => trusted.authentic) calls clear

theorem authentic_of_each_sample :
    Trace.Always (Repo.call sampleLibraries) (Repo.fresh (fun _ => none) [])
      (fun s => s.AllAuthentic sampleLibraries)
      [sampleProvision, sampleUpdate true, .installByName "a" sampleEnv] := by
  refine authentic_of_each sampleLibraries (fun _ => none) [] _ ?_
  refine Trace.each_cons.mpr ⟨?_, Trace.each_cons.mpr ⟨?_, Trace.each_cons.mpr ⟨?_, Trace.each_nil⟩⟩⟩
  · intro _ _ _ _ bytes _ _ key _
    refine Or.inr fun index none => ?_
    cases none
  · intro _ _ _
    exact Or.inr (Or.inr ⟨rfl, rfl, rfl, rfl, ⟨sampleSig, rfl, Or.inl rfl⟩⟩)
  · intro _ index isCache text isText order _ n _ pkg found
    have isIndex : (sampleAfter [sampleProvision, sampleUpdate true]).cache =
        some (asBytes sampleText) := rfl
    cases isIndex.symm.trans isCache
    cases (fromUtf8_asBytes sampleText).symm.trans isText
    rw [parse_sampleText] at found
    cases List.mem_singleton.mp (List.mem_of_find?_eq_some found)
    rfl

/-- An update whose download fails leaves its file, and a key may come after an index: the package is
installed all the same. -/
theorem not_authentic_failed_update :
    ¬Trace.Always (Repo.call sampleLibraries) (Repo.fresh (fun _ => none) [])
      (fun s => s.AllAuthentic sampleLibraries)
      [sampleProvision, sampleUpdate false, .installByName "a" sampleEnv] ∧
    ¬Trace.Always (Repo.call sampleLibraries) (Repo.fresh (fun _ => none) [])
      (fun s => s.AllAuthentic sampleLibraries)
      [sampleUpdate true, sampleProvision, .installByName "a" sampleEnv] := by
  refine ⟨?_, ?_⟩
  · exact not_authentic_unverified [sampleProvision, sampleUpdate false] rfl
  · exact not_authentic_unverified [sampleUpdate true, sampleProvision] rfl

end RustyPenguin.Pkg
