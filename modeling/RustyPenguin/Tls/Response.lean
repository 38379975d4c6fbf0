import RustyPenguin.Tls.Impostor

/-!
# The response

The response is the application data of the records that open, clipped at the end of the
caller's buffer (`receive_eq`). An attacker without the traffic key may drop, reorder, replay
and alter records, but no record it presents opens at a number under which the server sealed
something else (`Authentic`); so what is written is a prefix of what the server sent.

That the stream ended is not asked for. The response is complete when it fills the buffer or
an authenticated close_notify alert stopped the loop; whatever else stops it leaves a shorter
response that is reported all the same (`complete_iff`).
-/

set_option autoImplicit false

namespace RustyPenguin.Tls

open Checked Crypto

/-! ## What stops the loop -/

section Stops

variable {keys : Keys} {guard : Nat} {seq : UInt64} {r : Record} {rest : List Record}

theorem opened_other (change : r.typ ≠ ctChangeCipherSpec) (other : r.typ ≠ ctApplicationData) :
    opened keys (guard + 1) seq (r :: rest) = [] := by
  rw [opened, if_neg change, if_pos other]

theorem opened_altered (data : r.typ = ctApplicationData) (opens : openRecord keys seq r = none) :
    opened keys (guard + 1) seq (r :: rest) = [] := by
  have change : r.typ ≠ ctChangeCipherSpec := by rw [data]; decide
  rw [opened, if_neg change, if_neg (not_not.mpr data), opens]

theorem opened_alert {plain : List UInt8} (data : r.typ = ctApplicationData)
    (opens : openRecord keys seq r = some (ctAlert, plain)) :
    opened keys (guard + 1) seq (r :: rest) = [(ctAlert, plain)] := by
  have change : r.typ ≠ ctChangeCipherSpec := by rw [data]; decide
  rw [opened, if_neg change, if_neg (not_not.mpr data), opens]
  rfl

end Stops

/-- **What the caller gets** is the application data of the records that open, as far as the
buffer holds it. -/
theorem receive_eq {keys : Keys} {outLen guard : Nat} {s : Stream} {seq : UInt64}
    {written : List UInt8} (room : written.length ≤ outLen) :
    receive keys outLen guard s seq written =
      written ++ (contents ctApplicationData (opened keys guard seq (records s.pending))).take
        (outLen - written.length) := by
  have stops : written = written ++
      (contents ctApplicationData []).take (outLen - written.length) := by simp [contents]
  induction guard generalizing s seq written with
  | zero =>
    have none : opened keys 0 seq (records s.pending) = [] := by cases records s.pending <;> rfl
    rw [none]
    exact stops
  | succ guard ih =>
    rw [receive]
    cases reads : s.readRecord with
    | none =>
      rw [records_of_readRecord_none reads]
      exact stops
    | some found =>
      obtain ⟨r, next⟩ := found
      rw [(records_of_readRecord reads).1]
      simp only
      by_cases change : r.typ = ctChangeCipherSpec
      · rw [if_pos change, opened_change change]
        exact ih room stops
      rw [if_neg change]
      by_cases other : r.typ ≠ ctApplicationData
      · rw [if_pos other, opened_other change other]
        exact stops
      have isData : r.typ = ctApplicationData := not_not.mp other
      rw [if_neg other]
      cases opens : openRecord keys seq r with
      | none =>
        rw [opened_altered isData opens]
        exact stops
      | some p =>
        obtain ⟨innerType, plain⟩ := p
        simp only
        by_cases data : innerType = ctApplicationData
        · subst data
          have going : ctApplicationData ≠ ctAlert := by decide
          have taken : plain.take (min plain.length (outLen - written.length)) =
              plain.take (outLen - written.length) := by
            rw [Nat.min_comm, ← List.take_take, List.take_length]
          have size : (written ++ plain.take (outLen - written.length)).length =
              min (written.length + plain.length) outLen := by
            rw [List.length_append, List.length_take]
            omega
          rw [if_pos rfl, opened_data isData opens going, contents_cons_same, List.take_append,
            taken, ← List.append_assoc]
          by_cases full : outLen ≤ (written ++ plain.take (outLen - written.length)).length
          · have nothing : outLen - written.length - plain.length = 0 := by omega
            rw [if_pos full, nothing, List.take_zero, List.append_nil]
          · have left : outLen - (written ++ plain.take (outLen - written.length)).length =
                outLen - written.length - plain.length := by omega
            rw [if_neg full, ih (by omega) (by simp [contents]), left]
        rw [if_neg data]
        by_cases alert : innerType = ctAlert
        · subst alert
          have none : contents ctApplicationData [(ctAlert, plain)] =
              contents ctApplicationData [] := contents_cons_other data plain []
          rw [if_pos rfl, opened_alert isData opens, none]
          exact stops
        · rw [if_neg alert, opened_data isData opens alert, contents_cons_other data]
          exact ih room stops

/-! ## What an attacker without the key can do -/

/-- The server sealed `sealed`, one record after another, and no one else can seal: what
arrives as record `i` opens under a number it may be tried with only if the server sealed
that under this number. -/
def Authentic (keys : Keys) (sealed : List (UInt8 × List UInt8)) (rs : List Record) : Prop :=
  ∀ i r k p, rs[i]? = some r → k ≤ i → openRecord keys (UInt64.ofNat k) r = some p →
    sealed[k]? = some p

theorem opened_front {keys : Keys} {sealed : List (UInt8 × List UInt8)} {rs : List Record}
    (authentic : Authentic keys sealed rs) {guard i k : Nat} (order : k ≤ i)
    (rest : List Record) (suffix : rs.drop i = rest) :
    opened keys guard (UInt64.ofNat k) rest <+: sealed.drop k := by
  induction guard generalizing i k rest with
  | zero =>
    have none : opened keys 0 (UInt64.ofNat k) rest = [] := by cases rest <;> rfl
    rw [none]
    exact List.nil_prefix
  | succ guard ih =>
    cases rest with
    | nil => exact List.nil_prefix
    | cons r rest =>
      have here : rs[i]? = some r := by
        have first := congrArg (·[0]?) suffix
        simpa using first
      have suffix' : rs.drop (i + 1) = rest := by
        rw [← List.drop_drop, suffix]
        rfl
      by_cases change : r.typ = ctChangeCipherSpec
      · rw [opened_change change]
        exact ih (Nat.le_succ_of_le order) rest suffix'
      by_cases other : r.typ ≠ ctApplicationData
      · rw [opened_other change other]
        exact List.nil_prefix
      have isData : r.typ = ctApplicationData := not_not.mp other
      cases opens : openRecord keys (UInt64.ofNat k) r with
      | none =>
        rw [opened_altered isData opens]
        exact List.nil_prefix
      | some p =>
        have sent := authentic i r k p here order opens
        have inside : k < sealed.length := (List.getElem?_eq_some_iff.mp sent).1
        have split : sealed.drop k = p :: sealed.drop (k + 1) := by
          rw [List.drop_eq_getElem_cons inside, (List.getElem?_eq_some_iff.mp sent).2]
        rw [split]
        by_cases alert : p.1 = ctAlert
        · obtain ⟨t, plain⟩ := p
          obtain rfl : t = ctAlert := alert
          rw [opened_alert isData opens]
          exact List.cons_prefix_cons.mpr ⟨rfl, List.nil_prefix⟩
        · have succ : UInt64.ofNat k + 1 = UInt64.ofNat (k + 1) := (UInt64.ofNat_add k 1).symm
          rw [opened_data isData opens alert, succ]
          exact List.cons_prefix_cons.mpr ⟨rfl, ih (Nat.succ_le_succ order) rest suffix'⟩

theorem contents_front {innerType : UInt8} {ps qs : List (UInt8 × List UInt8)}
    (front : ps <+: qs) : contents innerType ps <+: contents innerType qs := by
  obtain ⟨rest, rfl⟩ := front
  simp [contents]

/-! ## Completeness -/

/-- The plaintexts of the records of a response. -/
def delivered (session : Session) : List (UInt8 × List UInt8) :=
  opened session.keys 4096 0 (records session.stream.pending)

/-- The last record that opened is a close_notify alert. -/
def ClosedByNotify (session : Session) : Prop :=
  ∃ level, (delivered session).getLast? = some (ctAlert, [level, 0])

theorem httpsRequest_connected {q : Request} {m : Machine} {session : Session}
    (connected : connect q m = .ok session) {written : List UInt8} :
    httpsRequest q m = .ok written ↔
      written ≠ [] ∧ written = (contents ctApplicationData (delivered session)).take q.outLen := by
  have collected : receive session.keys q.outLen 4096 session.stream 0 [] =
      (contents ctApplicationData (delivered session)).take q.outLen := by
    rw [receive_eq (Nat.zero_le _)]
    rfl
  rw [httpsRequest, bind_of_ok connected]
  simp only [collected]
  by_cases none : (contents ctApplicationData (delivered session)).take q.outLen = []
  · rw [if_pos none, none]
    exact ⟨fun same => (nomatch same), fun ⟨arrived, same⟩ => absurd same arrived⟩
  · rw [if_neg none]
    exact ⟨fun same => by cases same; exact ⟨none, rfl⟩, fun ⟨_, same⟩ => by rw [same]; rfl⟩

/-- The sample server seals two records and a close_notify alert; only the first arrives. -/
theorem sample_truncated :
    ∃ m session, connect sampleRequest m = .ok session ∧
      Authentic session.keys [(ctApplicationData, [72]), (ctApplicationData, [73]),
        (ctAlert, [1, 0])] (records session.stream.pending) ∧
      delivered session = [(ctApplicationData, [72])] := by
  obtain ⟨secrets, mac, keys, s, _, left, connected⟩ := sample_connects
  have next := nextRecord_sealRecord keys 0 [72] ctApplicationData (by decide) []
  rw [List.append_nil] at next
  have single : records s.pending = [sealRecord keys 0 [72] ctApplicationData] := by
    rw [left, records_some next, records_none rfl]
  have opens := openRecord_sealRecord keys 0 [72] (by decide : ctApplicationData ≠ 0)
  refine ⟨_, ⟨keys, s⟩, connected, ?_, ?_⟩
  · intro i r k p here order opens'
    rw [single] at here
    cases i with
    | succ i => cases here
    | zero =>
      obtain rfl : k = 0 := Nat.le_zero.mp order
      cases here
      have same : p = (ctApplicationData, [72]) := Option.some.inj (opens'.symm.trans opens)
      rw [same]
      rfl
  · have going : ctApplicationData ≠ ctAlert := by decide
    simp only [delivered, single]
    rw [opened_data rfl opens going]
    rfl

/-- **When a response is complete**: it is always a prefix of the application data that the
server sealed. It fills the buffer or was ended by an authenticated close_notify alert exactly
when no data arrived, the data that opened fills the buffer, or the last record that opened is
that alert. -/
theorem complete_iff {q : Request} {m : Machine} {session : Session}
    {sealed : List (UInt8 × List UInt8)} (connected : connect q m = .ok session)
    (authentic : Authentic session.keys sealed (records session.stream.pending)) :
    (∀ written, httpsRequest q m = .ok written →
      written <+: contents ctApplicationData sealed ∧
        (written.length = q.outLen ∨ ClosedByNotify session)) ↔
      (contents ctApplicationData (delivered session) = [] ∨
        q.outLen ≤ (contents ctApplicationData (delivered session)).length ∨
          ClosedByNotify session) := by
  constructor
  · intro complete
    by_contra fails
    obtain ⟨arrived, fails⟩ := not_or.mp fails
    obtain ⟨short, notClosed⟩ := not_or.mp fails
    have whole : (contents ctApplicationData (delivered session)).take q.outLen =
        contents ctApplicationData (delivered session) := List.take_of_length_le (by omega)
    have responds := (httpsRequest_connected connected).mpr ⟨arrived, whole.symm⟩
    rcases (complete _ responds).2 with full | closed
    · omega
    · exact notClosed closed
  · intro fine written responds
    obtain ⟨arrived, same⟩ := (httpsRequest_connected connected).mp responds
    have front : delivered session <+: sealed :=
      opened_front authentic (Nat.le_refl 0) _ List.drop_zero
    refine ⟨?_, ?_⟩
    · rw [same]
      exact (List.take_prefix _ _).trans (contents_front front)
    · rcases fine with none | full | closed
      · rw [none, List.take_nil] at same
        exact absurd same arrived
      · refine .inl ?_
        rw [same, List.length_take, Nat.min_eq_left full]
      · exact .inr closed

theorem complete_iff_sample :
    ∃ m session, connect sampleRequest m = .ok session ∧
      ¬ ∀ written, httpsRequest sampleRequest m = .ok written →
        written <+: [72, 73] ∧
          (written.length = sampleRequest.outLen ∨ ClosedByNotify session) := by
  obtain ⟨m, session, connected, authentic, all⟩ := sample_truncated
  refine ⟨m, session, connected, fun complete => ?_⟩
  rcases (complete_iff connected authentic).mp complete with none | full | ⟨level, closed⟩
  · rw [all] at none
    cases none
  · rw [all] at full
    exact absurd full (by decide)
  · rw [all] at closed
    cases closed

/-- The first byte of a response of two, after which the connection just ends, is reported as
the response. -/
theorem truncated_response :
    ∃ m session, connect sampleRequest m = .ok session ∧
      Authentic session.keys [(ctApplicationData, [72]), (ctApplicationData, [73]),
        (ctAlert, [1, 0])] (records session.stream.pending) ∧
      httpsRequest sampleRequest m = .ok [72] ∧ sampleRequest.outLen = 100 ∧
      ¬ ClosedByNotify session := by
  obtain ⟨m, session, connected, authentic, all⟩ := sample_truncated
  refine ⟨m, session, connected, authentic, ?_, rfl, ?_⟩
  · refine (httpsRequest_connected connected).mpr ⟨List.cons_ne_nil _ _, ?_⟩
    rw [all]
    rfl
  · rintro ⟨level, closed⟩
    rw [all] at closed
    cases closed

end RustyPenguin.Tls
