import RustyPenguin.Foundation.Run
import RustyPenguin.Wpa2.Handshake

/-!
# Deliveries in any order

Anyone may deliver frames to the supplicant, in any order and any number of times. Only
message 1 changes its state: a message 1 that is long enough replaces the pairwise key, and
no delivery changes its addresses, nonce or master key. The supplicant keeps no replay
counter and no nonce of the authenticator: what it accepts as message 3 is decided by the
pairwise key of the latest message 1 (`accepted_latest`), so that an accepted message 3 is
accepted again (`accepted_twice`).
-/

set_option autoImplicit false

namespace RustyPenguin.Wpa2

open Checked Crypto

/-- A frame given to one of the two entry points, with the room for its answer. -/
inductive Delivery where
  | message1 (frame : List UInt8) (room : Nat)
  | message3 (frame : List UInt8) (room : Nat)

inductive Answer where
  | message2 (frame : List UInt8)
  | message4 (frame : List UInt8) (keys : Keys)
  | rejected

namespace Supplicant

/-- The supplicant takes one delivery; message 3 leaves it as it is. -/
def step (self : Supplicant) : Delivery → Option (Answer × Supplicant)
  | .message1 m1 room =>
    match self.onMessage1 m1 room with
    | .ok (next, m2) => some (.message2 m2, next)
    | .error _ => none
  | .message3 m3 room =>
    match self.onMessage3 m3 room with
    | .ok (m4, keys) => some (.message4 m4 keys, self)
    | .error .refused => some (.rejected, self)
    | .error .fault => none

/-- The states that any sequence of deliveries reaches. -/
abbrev Reached (self : Supplicant) : List (Delivery × Answer) → Supplicant → Prop :=
  Run step (fun _ _ => True) self

end Supplicant

/-- The latest message 1 that was long enough to be read. -/
def latestMessage1 : List (Delivery × Answer) → Option (List UInt8)
  | [] => none
  | (.message1 m1 _, _) :: history =>
    if m1.length < frameFixed then latestMessage1 history else some m1
  | (.message3 _ _, _) :: history => latestMessage1 history

/-! ## One delivery -/

/-- What message 1 does to the state. -/
theorem onMessage1_cases {S S' : Supplicant} {m1 m2 : List UInt8} {room : Nat}
    (answered : S.onMessage1 m1 room = .ok (S', m2)) :
    (m1.length < frameFixed ∧ S' = S) ∨
      (frameFixed ≤ m1.length ∧
        pairwiseKey S.pmk S.aa S.spa (arrayAt 32 m1 offNonce) S.snonce = .ok S'.ptk ∧
          S' = { S with ptk := S'.ptk, havePtk := true }) := by
  rw [Supplicant.onMessage1] at answered
  split at answered
  · rename_i short
    cases answered
    exact .inl ⟨short, rfl⟩
  · rename_i long
    obtain ⟨next, derives, answered⟩ := bind_eq_ok.mp answered
    obtain ⟨key, derived, named⟩ := bind_eq_ok.mp derives
    cases named
    have next : S' = { S with ptk := key, havePtk := true } := by
      simp only at answered
      split at answered <;> cases answered <;> rfl
    subst next
    exact .inr ⟨Nat.le_of_not_lt long, derived, rfl⟩

/-- A message 3 that is accepted verifies under the pairwise key, which is the key returned. -/
theorem onMessage3_accepted {S : Supplicant} {m3 m4 : List UInt8} {keys : Keys} {room : Nat}
    (accepted : S.onMessage3 m3 room = .ok (m4, keys)) :
    S.havePtk = true ∧ micValid (kck S.ptk) m3 = true ∧ keys.ptk = S.ptk := by
  rw [Supplicant.onMessage3] at accepted
  split at accepted
  · cases accepted
  rename_i verifies
  rw [Bool.not_eq_false, Supplicant.verifyMessage3] at verifies
  have valid : S.havePtk = true ∧ micValid (kck S.ptk) m3 = true := by
    split at verifies
    · cases verifies
    split at verifies
    · cases verifies
    rename_i ready _
    exact ⟨by simpa using (not_or.mp ready).1, verifies⟩
  refine ⟨valid.1, valid.2, ?_⟩
  simp only at accepted
  split at accepted
  · cases accepted
  obtain ⟨gtk?, _, accepted⟩ := bind_eq_ok.mp accepted
  split at accepted
  · cases accepted
  cases gtk? <;> cases accepted <;> rfl

/-- What an accepted delivery of message 3 is. -/
theorem step_message3 {S S' : Supplicant} {m3 m4 : List UInt8} {keys : Keys} {room : Nat}
    (accepted : S.step (.message3 m3 room) = some (.message4 m4 keys, S')) :
    S' = S ∧ S.onMessage3 m3 room = .ok (m4, keys) := by
  simp only [Supplicant.step] at accepted
  split at accepted <;> cases accepted
  rename_i called
  exact ⟨rfl, called⟩

/-! ## Whole runs -/

/-- The supplicant holds the pairwise key of the latest message 1, if there was one, and it
still is the supplicant it was. -/
structure HoldsLatest (S₀ : Supplicant) (history : List (Delivery × Answer)) (S : Supplicant) :
    Prop where
  same : S.pmk = S₀.pmk ∧ S.aa = S₀.aa ∧ S.spa = S₀.spa ∧ S.snonce = S₀.snonce
  key : S.havePtk = true → ∃ m1, latestMessage1 history = some m1 ∧
    pairwiseKey S₀.pmk S₀.aa S₀.spa (arrayAt 32 m1 offNonce) S₀.snonce = .ok S.ptk

theorem holdsLatest_step {S₀ S S' : Supplicant} {history : List (Delivery × Answer)}
    {delivery : Delivery} {answer : Answer} (holds : HoldsLatest S₀ history S)
    (stepped : S.step delivery = some (answer, S')) :
    HoldsLatest S₀ ((delivery, answer) :: history) S' := by
  cases delivery with
  | message1 m1 room =>
    simp only [Supplicant.step] at stepped
    split at stepped <;> cases stepped
    rename_i answered
    rcases onMessage1_cases answered with ⟨short, rfl⟩ | ⟨long, derived, next⟩
    · refine ⟨holds.same, fun ready => ?_⟩
      rw [latestMessage1, if_pos short]
      exact holds.key ready
    · obtain ⟨pmk, aa, spa, snonce⟩ := holds.same
      rw [pmk, aa, spa, snonce] at derived
      refine ⟨?_, fun _ => ⟨m1, ?_, derived⟩⟩
      · rw [next]
        exact holds.same
      · rw [latestMessage1, if_neg (Nat.not_lt.mpr long)]
  | message3 m3 room =>
    have kept : S' = S := by
      simp only [Supplicant.step] at stepped
      split at stepped <;> cases stepped <;> rfl
    rw [kept]
    exact ⟨holds.same, holds.key⟩

theorem holdsLatest_of_reached {S₀ S : Supplicant} {history : List (Delivery × Answer)}
    (fresh : S₀.havePtk = false) (run : S₀.Reached history S) : HoldsLatest S₀ history S := by
  refine run.invariant_history (P := HoldsLatest S₀) ⟨⟨rfl, rfl, rfl, rfl⟩, ?_⟩ ?_
  · intro ready
    rw [fresh] at ready
    cases ready
  · intro history S delivery answer S' holds _ stepped
    exact holdsLatest_step holds stepped

/-! ## What is accepted -/

section Sample

/-- A supplicant and an authenticator that share a master key of zeroes. -/
def sampleStation : Supplicant :=
  Supplicant.new (zeroes 32) (zeroes 6) (Vector.replicate 6 1) (zeroes 32)

def sampleAuthenticator : Authenticator where
  anonce := Vector.replicate 32 1
  gtk := List.replicate 16 7
  keyId := #v[1, 0]
  descriptor := 2
  version := 2
  keyLength := #v[0, 16]
  lifetime := zeroes 32
  gtk_fits := by decide

/-- The sample supplicant takes message 1, and then accepts a message 3 with another nonce
and a smaller replay counter. -/
theorem sample_accepts :
    ∃ history S m1 m3 m4 keys, sampleStation.Reached history S ∧
      S.step (.message3 m3 frameFixed) = some (.message4 m4 keys, S) ∧
      latestMessage1 history = some m1 ∧
      arrayAt 32 m3 offNonce = zeroes 32 ∧ arrayAt 32 m1 offNonce = Vector.replicate 32 1 ∧
      arrayAt 8 m3 offReplay = zeroes 8 ∧ arrayAt 8 m1 offReplay = Vector.replicate 8 1 := by
  obtain ⟨S, m2, answered, _, next, _, _⟩ :=
    onMessage1_message1 sampleStation sampleAuthenticator (Vector.replicate 8 1) 0
  have ready : S.havePtk = true := by rw [next]
  let other : Authenticator := { sampleAuthenticator with anonce := zeroes 32 }
  obtain ⟨m3, m4, keys, sent, _, accepted, _⟩ := onMessage3_message3 S other ready (zeroes 8) 0
  obtain ⟨nonce, replay⟩ := message3_fields other sent
  have first : sampleStation.step
      (.message1 (sampleAuthenticator.message1 (Vector.replicate 8 1)) frameFixed) =
        some (.message2 m2, S) := by
    simp only [Supplicant.step]
    rw [show frameFixed = frameFixed + 0 from rfl, answered]
  have long : ¬ (sampleAuthenticator.message1 (Vector.replicate 8 1)).length < frameFixed := by
    rw [Authenticator.message1, length_encode]
    exact Nat.not_lt.mpr (Nat.le_add_right _ _)
  refine ⟨_, S, _, m3, m4, keys, Run.start.next trivial first, ?_, if_neg long, nonce,
    nonce_encode _ _, replay, replay_encode _ _⟩
  simp only [Supplicant.step]
  rw [show frameFixed = frameFixed + 0 from rfl, accepted]

end Sample

/-- **Message 3 is decided by the latest message 1**: after any deliveries to a supplicant
with no pairwise key, a message 3 is accepted only if a message 1 was taken before, only if
its code verifies under the key derived from the nonce of the latest one, and that is the
key returned; accepting it changes nothing, and so it is accepted again. -/
theorem accepted_latest {S₀ S S' : Supplicant} {history : List (Delivery × Answer)}
    {m3 m4 : List UInt8} {keys : Keys} {room : Nat} (fresh : S₀.havePtk = false)
    (run : S₀.Reached history S)
    (accepted : S.step (.message3 m3 room) = some (.message4 m4 keys, S')) :
    (∃ m1, latestMessage1 history = some m1 ∧
      pairwiseKey S₀.pmk S₀.aa S₀.spa (arrayAt 32 m1 offNonce) S₀.snonce = .ok keys.ptk ∧
        micValid (kck keys.ptk) m3 = true) ∧
      S' = S ∧ S'.step (.message3 m3 room) = some (.message4 m4 keys, S') := by
  obtain ⟨rfl, called⟩ := step_message3 accepted
  obtain ⟨ready, valid, same⟩ := onMessage3_accepted called
  obtain ⟨m1, latest, derived⟩ := (holdsLatest_of_reached fresh run).key ready
  refine ⟨⟨m1, latest, ?_, ?_⟩, rfl, accepted⟩
  · rw [same]
    exact derived
  · rw [same]
    exact valid

theorem accepted_latest_sample :
    ∃ history S m1 m3, ∃ keys : Keys, sampleStation.Reached history S ∧
      latestMessage1 history = some m1 ∧ micValid (kck keys.ptk) m3 = true := by
  obtain ⟨history, S, _, m3, m4, keys, run, accepted, _⟩ := sample_accepts
  obtain ⟨⟨m1, latest, _, valid⟩, _⟩ := accepted_latest rfl run accepted
  exact ⟨history, S, m1, m3, keys, run, latest, valid⟩

/-- One message 3 is accepted twice in a row, though its nonce is not the one of message 1
and its replay counter is smaller. -/
theorem accepted_twice :
    ∃ history S m1 m3 m4 keys, sampleStation.Reached
      ((.message3 m3 frameFixed, .message4 m4 keys) ::
        (.message3 m3 frameFixed, .message4 m4 keys) :: history) S ∧
      latestMessage1 history = some m1 ∧
      arrayAt 32 m3 offNonce = zeroes 32 ∧ arrayAt 32 m1 offNonce = Vector.replicate 32 1 ∧
      arrayAt 8 m3 offReplay = zeroes 8 ∧ arrayAt 8 m1 offReplay = Vector.replicate 8 1 := by
  obtain ⟨history, S, m1, m3, m4, keys, run, accepted, fields⟩ := sample_accepts
  exact ⟨history, S, m1, m3, m4, keys, (run.next trivial accepted).next trivial accepted, fields⟩

end RustyPenguin.Wpa2
