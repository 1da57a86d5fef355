import Zqrpc.Convert

/-! The sending half of `ZSocket`. A message leaves the socket when its last frame
is accepted without `ZMQ_SNDMORE`; frames accepted before that stay with the
socket, also when the call that sent them fails. -/
namespace Zqrpc

open Numeral

abbrev FramesT := List Bytes

/-- What `socket_.send` does with one frame. -/
inductive SendOutcome where
  | accepted
  /-- `EAGAIN`, returned as `false` -/
  | refused
  /-- `zmq::error_t` -/
  | threw
  deriving DecidableEq

structure SendResult where
  /-- frames the socket holds of a message not yet complete -/
  pending : FramesT
  /-- complete messages, in the order they left -/
  sent : List FramesT
  result : Except Exn Bool

def cannotSend : ZError := ⟨.connectionError, cStr (ascii "cannot send data frame")⟩

/-- What leaves `Send` at the first frame that is not accepted. -/
def SendOutcome.exn : SendOutcome → Exn
  | .threw => .zmqError
  | _ => .zerror cannotSend

/-- The loop of `Send` at frame number `i`, with `fleft` frames left. -/
def sendLoop (outcome : Nat → SendOutcome) (i fleft : Nat) : FramesT → FramesT → SendResult
  | [], pending => ⟨pending, [], .ok true⟩
  | frame :: rest, pending =>
    match outcome i with
    | .accepted =>
      if fleft = 1 then
        let later := sendLoop outcome (i + 1) (fleft - 1) rest []
        { later with sent := (pending ++ [frame]) :: later.sent }
      else sendLoop outcome (i + 1) (fleft - 1) rest (pending ++ [frame])
    | failure => ⟨pending, [], .error failure.exn⟩

def send (outcome : Nat → SendOutcome) (frames pending : FramesT) : SendResult :=
  if frames.length = 0 then ⟨pending, [], .ok true⟩
  else sendLoop outcome 0 frames.length frames pending

/-- The socket takes each of the first `n` frames. -/
def Accepts (outcome : Nat → SendOutcome) (n : Nat) : Prop := ∀ i < n, outcome i = .accepted

instance (outcome : Nat → SendOutcome) (n : Nat) : Decidable (Accepts outcome n) :=
  inferInstanceAs (Decidable (∀ i < n, outcome i = .accepted))

/-- A socket that takes every frame. -/
def acceptAll : Nat → SendOutcome := fun _ => .accepted

theorem sendLoop_accepted (outcome : Nat → SendOutcome) (i : Nat) (frame : Bytes)
    (rest pending : FramesT) (all : ∀ j ≤ rest.length, outcome (i + j) = .accepted) :
    sendLoop outcome i (rest.length + 1) (frame :: rest) pending =
      ⟨[], [pending ++ frame :: rest], .ok true⟩ := by
  induction rest generalizing i frame pending with
  | nil => simp [sendLoop, show outcome i = .accepted from all 0 (Nat.zero_le _)]
  | cons next rest ih =>
    have tail := ih (i + 1) next (pending ++ [frame]) fun j bound => by
      rw [Nat.add_assoc, Nat.add_comm 1 j]
      exact all (j + 1) (by simpa using bound)
    rw [sendLoop, show outcome i = .accepted from all 0 (Nat.zero_le _)]
    simp only [List.length_cons, Nat.add_sub_cancel, tail]
    simp

/-- The counter of frames left plays no part before the last frame. -/
theorem sendLoop_failed (outcome : Nat → SendOutcome) (i k : Nat) (frames pending : FramesT)
    (bound : k < frames.length) (before : ∀ j < k, outcome (i + j) = .accepted)
    (fails : outcome (i + k) ≠ .accepted) :
    sendLoop outcome i frames.length frames pending =
      ⟨pending ++ frames.take k, [], .error (outcome (i + k)).exn⟩ := by
  induction k generalizing i frames pending with
  | zero =>
    obtain ⟨frame, rest, rfl⟩ := List.exists_cons_of_length_pos bound
    cases h : outcome i <;> simp_all [sendLoop]
  | succ k ih =>
    obtain ⟨frame, rest, rfl⟩ := List.exists_cons_of_length_pos (Nat.zero_lt_of_lt bound)
    have inside : k < rest.length := by simpa using bound
    have first : outcome i = .accepted := before 0 (Nat.succ_pos k)
    have shift (j : Nat) : i + 1 + j = i + (j + 1) := by omega
    have tail := ih (i + 1) rest (pending ++ [frame]) inside
      (fun j h => by rw [shift]; exact before (j + 1) (by omega)) (by rw [shift]; exact fails)
    have more : rest.length ≠ 0 := by omega
    rw [sendLoop, first]
    simp only [List.length_cons, Nat.add_sub_cancel, tail, shift]
    simp [more]

theorem send_accepted (outcome : Nat → SendOutcome) (frames pending : FramesT)
    (nonempty : frames ≠ []) (all : Accepts outcome frames.length) :
    send outcome frames pending = ⟨[], [pending ++ frames], .ok true⟩ := by
  obtain ⟨frame, rest, rfl⟩ := List.exists_cons_of_ne_nil nonempty
  rw [send, if_neg (by simp)]
  exact sendLoop_accepted outcome 0 frame rest pending fun j bound =>
    all (0 + j) (by simp only [List.length_cons]; omega)

theorem send_failed (outcome : Nat → SendOutcome) (frames pending : FramesT) (k : Nat)
    (bound : k < frames.length) (before : Accepts outcome k) (fails : outcome k ≠ .accepted) :
    send outcome frames pending =
      ⟨pending ++ frames.take k, [], .error (outcome k).exn⟩ := by
  rw [send, if_neg (by omega)]
  simpa using sendLoop_failed outcome 0 k frames pending bound (by simpa [Accepts] using before)
    (by simpa using fails)

theorem accepts_or_first_failure (outcome : Nat → SendOutcome) (n : Nat) :
    Accepts outcome n ∨ ∃ k < n, Accepts outcome k ∧ outcome k ≠ .accepted := by
  induction n with
  | zero => exact .inl (by simp [Accepts])
  | succ n ih =>
    rcases ih with all | ⟨k, bound, before, fails⟩
    · by_cases last : outcome n = .accepted
      · left
        intro i bound
        rcases Nat.lt_succ_iff_lt_or_eq.mp bound with h | rfl
        · exact all i h
        · exact last
      · exact .inr ⟨n, Nat.lt_succ_self n, all, last⟩
    · exact .inr ⟨k, by omega, before, fails⟩

/-- All that `Send` does with a list of frames: the message leaves as a whole, or
a proper part of it stays behind. -/
theorem send_cases (outcome : Nat → SendOutcome) (frames pending : FramesT)
    (nonempty : frames ≠ []) :
    (Accepts outcome frames.length ∧
      send outcome frames pending = ⟨[], [pending ++ frames], .ok true⟩) ∨
    ∃ k < frames.length, outcome k ≠ .accepted ∧ send outcome frames pending =
      ⟨pending ++ frames.take k, [], .error (outcome k).exn⟩ := by
  rcases accepts_or_first_failure outcome frames.length with all | ⟨k, bound, before, fails⟩
  · exact .inl ⟨all, send_accepted outcome frames pending nonempty all⟩
  · exact .inr ⟨k, bound, fails, send_failed outcome frames pending k bound before fails⟩

end Zqrpc
