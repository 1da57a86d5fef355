import Zqrpc.ChannelReplies

/-! What success means at the client: the code of a reply, read from its text, and the
payload of a reply, read as a message of the response type. -/
namespace Zqrpc

open Numeral Steps

/-- The digits of a numeral that may have a sign. -/
def unsigned (text : Bytes) : Bytes :=
  match text with
  | [] => []
  | b :: rest => if b = minus ∨ b = plus then rest else text

/-- A decimal numeral of value zero, and nothing else in the text. -/
def ZeroNumeral (text : Bytes) : Prop :=
  unsigned text ≠ [] ∧ (unsigned text).all isDigit = true ∧ value (unsigned text) = 0

instance (text : Bytes) : Decidable (ZeroNumeral text) :=
  inferInstanceAs (Decidable (_ ∧ _ ∧ _))

/-- The integer a text starts with, behind its blanks; zero when there is none. -/
def leading (text : Bytes) : Int := readInt ((cStr text).bytes.dropWhile isSpace)

/-- The low 32 bits of the number `strtol` makes of the text are zero. -/
def LowBitsZero (text : Bytes) : Prop :=
  leading text ≤ -2 ^ 63 ∨ leading text < 2 ^ 63 ∧ 2 ^ 32 ∣ leading text

instance (text : Bytes) : Decidable (LowBitsZero text) :=
  inferInstanceAs (Decidable (_ ∨ _ ∧ _))

/-- The reply is stored as a success. -/
structure TakenAsSuccess (next : Session) (id : Nat) (c : Ptr) : Prop where
  rcode : (next.client.memory c).rcode = .ready
  erased : next.client.channel.replylist.lookup id = none

theorem atoi_eq_zero_iff (text : Bytes) : atoi (cStr text) = 0 ↔ LowBitsZero text := by
  have low (n : Int) : Int32.ofInt n = 0 ↔ 2 ^ 32 ∣ n := by
    rw [Int32.ofInt_eq_iff_bmod_eq_toInt]
    exact Int.dvd_iff_bmod_eq_zero.symm
  rw [atoi, low, LowBitsZero, leading]
  omega

theorem takenAsSuccess_iff (s next : Session) (t : Tick) (emitted : List Event)
    (frames : FramesT) (id : Nat) (c : Ptr) (four : frames.length = 4) (reads : Reads id frames)
    (outstanding : s.client.channel.replylist.lookup id = some c)
    (fired : s.step (.tick t) = some (next, emitted)) (consumed : .consumed frames ∈ emitted) :
    TakenAsSuccess next id c ↔
      id ≤ s.client.channel.nextreply ∧ LowBitsZero (frames.getD 2 []) := by
  rw [← atoi_eq_zero_iff]
  obtain ⟨_, step⟩ := s.step_consumed next t emitted frames fired consumed
  rcases deliver_cases frames s.client with
    ⟨id', c', answers, known, entry, ok⟩ | ⟨silent, quiet⟩
  · obtain rfl : id' = id := Option.some.inj (answers.2.1.symm.trans reads)
    obtain rfl : c' = c := Option.some.inj (entry.symm.trans outstanding)
    have same : next.client = s.client.ready id' c' (frames.getD 3 []) := by
      rcases step with step | ⟨_, e, _, step, _⟩
      · exact Except.ok.inj (step.symm.trans ok)
      · exact absurd (step.symm.trans ok) (by simp)
    constructor
    · intro _
      exact ⟨known, answers.2.2⟩
    · intro _
      constructor
      · rw [same]
        simp
      · rw [same]
        simp
  · have same : next.client = s.client := by
      rcases step with step | ⟨_, _, _, _, same, _⟩
      · rcases quiet with quiet | ⟨e, quiet⟩
        · exact Except.ok.inj (step.symm.trans quiet)
        · exact absurd (step.symm.trans quiet) (by simp)
      · exact same
    constructor
    · rintro ⟨_, erased⟩
      rw [same, outstanding] at erased
      cases erased
    · rintro ⟨known, zero⟩
      exact absurd outstanding (silent id c ⟨four, reads, zero⟩ known)

/-- A reply is taken as a success for a code other than a numeral of value zero exactly
when its text has no such numeral and still reads as zero. Every code the worker writes
is read back. -/
theorem only_zero_succeeds_iff (s next : Session) (t : Tick) (emitted : List Event)
    (frames : FramesT) (id : Nat) (c : Ptr) (four : frames.length = 4) (reads : Reads id frames)
    (outstanding : s.client.channel.replylist.lookup id = some c)
    (fired : s.step (.tick t) = some (next, emitted)) (consumed : .consumed frames ∈ emitted) :
    ((TakenAsSuccess next id c → ZeroNumeral (frames.getD 2 [])) ↔
      (ZeroNumeral (frames.getD 2 []) ∨ s.client.channel.nextreply < id ∨
        ¬LowBitsZero (frames.getD 2 []))) ∧
    ∀ error : ZError, atoi (cStr (decimalInt error.icode)) = error.ecode := by
  refine ⟨?_, fun error => atoi_decimalInt error.ecode⟩
  rw [takenAsSuccess_iff s next t emitted frames id c four reads outstanding fired consumed]
  constructor
  · intro only
    by_cases zero : ZeroNumeral (frames.getD 2 [])
    · exact .inl zero
    · right
      by_contra taken
      rw [not_or, not_lt, not_not] at taken
      exact zero (only taken)
  · rintro (zero | rogue | nonzero) ⟨known, low⟩
    · exact zero
    · omega
    · exact absurd low nonzero

theorem only_zero_succeeds_iff_asked : ∃ events s next emitted,
    Path (Fires Session.step) {} asked events s ∧
    s.step (.tick ⟨1, .readable, .message [[], ascii "1", ascii "0", ascii "ok"]⟩) =
      some (next, emitted) ∧
    (TakenAsSuccess next 1 0 → ZeroNumeral (ascii "0")) := by
  have run : ∃ events s next emitted, execute Session.step asked {} = some (s, events) ∧
      s.step (.tick ⟨1, .readable, .message [[], ascii "1", ascii "0", ascii "ok"]⟩) =
        some (next, emitted) ∧
      emitted = [.polled 99, .consumed [[], ascii "1", ascii "0", ascii "ok"]] ∧
      s.client.channel.replylist.lookup 1 = some 0 := ⟨_, _, _, _, rfl, rfl, rfl, rfl⟩
  obtain ⟨events, s, next, emitted, run, fired, rfl, entry⟩ := run
  refine ⟨events, s, next, _, execute_path run, fired, ?_⟩
  exact (only_zero_succeeds_iff s next _ _ [[], ascii "1", ascii "0", ascii "ok"] 1 0 rfl rfl
    entry fired (by simp)).1.mpr (.inl (by decide))

/-- The third frame of this reply is the numeral of 2^32. -/
theorem wide_code_succeeds : ¬∀ inputs events s next t emitted frames id c,
    Path (Fires Session.step) {} inputs events s → s.step (.tick t) = some (next, emitted) →
    .consumed frames ∈ emitted → frames.length = 4 → Reads id frames →
    s.client.channel.replylist.lookup id = some c →
    TakenAsSuccess next id c → ZeroNumeral (frames.getD 2 []) := by
  intro claim
  have run : ∃ events s next emitted, execute Session.step asked {} = some (s, events) ∧
      s.step (.tick ⟨1, .readable, .message [[], ascii "1", ascii "4294967296", ascii "x"]⟩) =
        some (next, emitted) ∧
      emitted = [.polled 99, .consumed [[], ascii "1", ascii "4294967296", ascii "x"]] ∧
      s.client.channel.replylist.lookup 1 = some 0 ∧
      (next.client.memory 0).rcode = .ready ∧ next.client.channel.replylist.lookup 1 = none :=
    ⟨_, _, _, _, rfl, rfl, rfl, rfl, rfl, rfl⟩
  obtain ⟨events, s, next, emitted, run, fired, rfl, entry, rcode, erased⟩ := run
  have numeral := claim _ events s next _ _ [[], ascii "1", ascii "4294967296", ascii "x"] 1 0
    (execute_path run) fired (by simp) rfl rfl entry ⟨rcode, erased⟩
  exact absurd numeral (by decide)

/-- The payload of a message that is a success for an outstanding request of `c`. -/
def replyTo (c : Ptr) (s : Client) (frames : FramesT) : Option Bytes :=
  (lexicalCast (frames.getD 1 [])).bind fun id =>
    if frames.length = 4 ∧ id ≤ s.channel.nextreply ∧ s.channel.replylist.lookup id = some c ∧
      LowBitsZero (frames.getD 2 []) then some (frames.getD 3 []) else none

/-- A call that sends with a controller takes the reply it holds away, and a success that
is read for the controller puts one there. -/
def mark (c : Ptr) (s : Client) : Event → Option (Option Bytes)
  | .sent c' _ | .failed c' => if c' = c then some none else none
  | .consumed frames => (replyTo c s frames).map some
  | _ => none

/-- The events of a step that are noted, each against the state the step starts in. -/
def notes {N : Type} (note : Client → Event → Option N) (s : Session) (input : Input) : List N :=
  match s.step input with
  | none => []
  | some (_, emitted) => emitted.filterMap (note s.client)

/-- The last note of a run from the start. -/
def latest {N : Type} (note : Client → Event → Option N) (inputs : List Input) : Option N :=
  (along (notes note) Session.step inputs {}).getLast?

/-- The payload of the last success that was read for the last request of `c`. -/
def lastReply (c : Ptr) (inputs : List Input) : Option Bytes := (latest (mark c) inputs).join

/-- A call says `ok()` only of a response that was parsed, and says `ZRC_ERROR` of one
that was not. -/
structure Verified {Message : Type} (parseFromString : Bytes → Option Message) (next : Session)
    (c : Ptr) (p : Option Bytes) : Prop where
  complete : (next.client.memory c).ok = true →
    ∃ payload, p = some payload ∧ (parseFromString payload).isSome
  corrupt : ∀ payload, p = some payload → parseFromString payload = none →
    (next.client.memory c).rcode = .error

theorem latest_snoc {N : Type} (note : Client → Event → Option N)
    (earlier : Path (Fires Session.step) {} inputs events s)
    (last : Fires Session.step s input emitted next) :
    latest note (inputs ++ [input]) =
      (emitted.filterMap (note s.client)).getLast?.or (latest note inputs) := by
  have fired : s.step input = some (next, emitted) := last
  rw [latest, earlier.along_append [input], List.getLast?_append]
  simp [along, notes, fired, latest]

theorem replyTo_eq_some (c : Ptr) (s : Client) (frames : FramesT) (payload : Bytes) :
    replyTo c s frames = some payload ↔ ∃ id, Answers id frames ∧ id ≤ s.channel.nextreply ∧
      s.channel.replylist.lookup id = some c ∧ frames.getD 3 [] = payload := by
  constructor
  · intro reply
    obtain ⟨id, reads, reply⟩ := Option.bind_eq_some_iff.mp reply
    split at reply
    · rename_i success
      obtain ⟨four, known, entry, zero⟩ := success
      exact ⟨id, ⟨four, reads, (atoi_eq_zero_iff _).mpr zero⟩, known, entry,
        Option.some.inj reply⟩
    · cases reply
  · rintro ⟨id, ⟨four, reads, zero⟩, known, entry, rfl⟩
    refine Option.bind_eq_some_iff.mpr ⟨id, reads, ?_⟩
    rw [if_pos ⟨four, known, entry, (atoi_eq_zero_iff _).mp zero⟩]

theorem replyTo_eq_none (c : Ptr) (s : Client) (frames : FramesT)
    (silent : ∀ id, Answers id frames → id ≤ s.channel.nextreply →
      s.channel.replylist.lookup id ≠ some c) : replyTo c s frames = none := by
  apply Option.eq_none_iff_forall_ne_some.mpr
  intro payload reply
  obtain ⟨id, answers, known, entry, _⟩ := (replyTo_eq_some c s frames payload).mp reply
  exact silent id answers known entry

theorem mark_around (c : Ptr) (s : Client) (e : Event) (around : e.Around) : mark c s e = none := by
  cases e <;> first | rfl | exact around.elim

/-- What a step leaves of the reply a controller holds. -/
theorem step_parsed (s next : Session) (input : Input) (emitted : List Event) (c : Ptr)
    (fired : s.step input = some (next, emitted)) :
    parsed (next.client.memory c) =
      (emitted.filterMap (mark c s.client)).getLast?.getD (parsed (s.client.memory c)) := by
  cases input with
  | send c' fullName request outcome =>
    obtain ⟨_, _, ⟨buffer, rfl, accepts, same, rfl⟩ | ⟨_, rfl, channel, code, same, _, _⟩⟩ :=
      s.step_send next c' fullName request outcome emitted fired
    all_goals by_cases own : c' = c
    · subst c'
      simp [same, mark, parsed]
    · simp [same, mark, own, Ne.symm own]
    · subst c'
      simp [same, mark, parsed]
    · simp [same, mark, own, Client.fail_other _ _ _ _ (Ne.symm own)]
  | recv c' timeout start =>
    obtain ⟨_, rfl, rfl⟩ := s.step_recv next c' timeout start emitted fired
    rfl
  | tick t =>
    obtain ⟨before, after, around, ⟨same, rfl⟩ | ⟨frames, _, rfl, result⟩⟩ :=
      s.step_tick next t emitted fired
    · rw [same, filterMap_around (mark_around c s.client) around]
      rfl
    · rw [filterMap_consumed (mark_around c s.client) frames around]
      rcases result with ⟨id, c', answers, known, entry, same⟩ | ⟨silent, same⟩
      · rw [same]
        by_cases own : c' = c
        · subst c'
          rw [mark, (replyTo_eq_some c s.client frames _).mpr ⟨id, answers, known, entry, rfl⟩]
          simp [parsed]
        · have other : replyTo c s.client frames = none := by
            refine replyTo_eq_none c s.client frames fun id' answers' _ entry' => ?_
            obtain rfl := answers'.unique answers
            exact own (Option.some.inj (entry.symm.trans entry'))
          rw [mark, other]
          simp [Ne.symm own]
      · rw [mark, replyTo_eq_none c s.client frames fun id => silent id c, same]
        rfl

/-- In every run a controller is ready with the reply that was read last for it. -/
theorem run_lastReply (run : Path (Fires Session.step) {} inputs events s) (c : Ptr) :
    parsed (s.client.memory c) = lastReply c inputs := by
  induction run with
  | nil => rfl
  | @snoc inputs events s input emitted next earlier last ih =>
    rw [step_parsed s next input emitted c last, ih, lastReply, lastReply,
      latest_snoc (mark c) earlier last]
    cases (emitted.filterMap (mark c s.client)).getLast? with
    | none => rfl
    | some reply => rfl

/-- `ok()` means a parsed response exactly when the payload that was read for the
controller's last request, if one was, is a message of the response type. -/
theorem ok_is_parsed_iff {Message : Type} (parseFromString : Bytes → Option Message)
    (run : Path (Fires Session.step) {} inputs events s) (input : Input) (next : Session)
    (emitted : List Event) (c : Ptr) (p : Option Bytes)
    (fired : s.step input = some (next, emitted)) (returns : .returned c p ∈ emitted) :
    Verified parseFromString next c p ↔
      ∀ payload, lastReply c inputs = some payload → (parseFromString payload).isSome := by
  obtain ⟨_, _, _, _, _, rfl, rfl, _⟩ := s.step_returned next input emitted c p fired returns
  rw [run_lastReply run c]
  constructor
  · intro verified payload reply
    have ready : (s.client.memory c).rcode = .ready := by
      rw [← run_lastReply run c] at reply
      unfold parsed at reply
      split at reply
      · assumption
      · cases reply
    obtain ⟨payload', same, parses⟩ := verified.complete (by simp [ZController.ok, ready])
    obtain rfl := Option.some.inj (same.symm.trans reply)
    exact parses
  · intro parses
    constructor
    · intro ok
      have ready : (s.client.memory c).rcode = .ready := by simpa [ZController.ok] using ok
      have reply : lastReply c inputs = some (s.client.memory c).payload := by
        rw [← run_lastReply run c, parsed, if_pos ready]
      exact ⟨_, reply, parses _ reply⟩
    · intro payload reply fails
      have := parses payload reply
      rw [fails] at this
      cases this

/-- A message type without fields, on the payloads below. -/
def fieldless (payload : Bytes) : Option Unit := if payload = [] then some () else none

theorem ok_is_parsed_iff_asked : ∃ events s next emitted p,
    Path (Fires Session.step) {}
      (asked ++ [.tick ⟨1, .readable, .message [[], ascii "1", ascii "0", []]⟩,
        .tick ⟨2, .silent, .empty⟩]) events s ∧
    s.step (.tick ⟨3, .silent, .empty⟩) = some (next, emitted) ∧ .returned 0 p ∈ emitted ∧
    Verified fieldless next 0 p := by
  have run : ∃ events s next emitted p, execute Session.step
        (asked ++ [.tick ⟨1, .readable, .message [[], ascii "1", ascii "0", []]⟩,
          .tick ⟨2, .silent, .empty⟩]) {} = some (s, events) ∧
      s.step (.tick ⟨3, .silent, .empty⟩) = some (next, emitted) ∧ emitted = [.returned 0 p] :=
    ⟨_, _, _, _, _, rfl, rfl, rfl⟩
  obtain ⟨events, s, next, emitted, p, run, fired, rfl⟩ := run
  refine ⟨events, s, next, _, p, execute_path run, fired, by simp, ?_⟩
  refine (ok_is_parsed_iff fieldless (execute_path run) _ next _ 0 p fired (by simp)).mpr ?_
  intro payload reply
  obtain rfl : [] = payload := Option.some.inj reply
  rfl

/-- The payload of this reply ends inside its first field. -/
theorem unparsed_is_ok : ¬∀ (Message : Type) (parseFromString : Bytes → Option Message) inputs
    events s input next emitted c p, Path (Fires Session.step) {} inputs events s →
    s.step input = some (next, emitted) → .returned c p ∈ emitted →
    Verified parseFromString next c p := by
  intro claim
  have run : ∃ events s next emitted, execute Session.step
        (asked ++ [.tick ⟨1, .readable, .message [[], ascii "1", ascii "0", [10]]⟩,
          .tick ⟨2, .silent, .empty⟩]) {} = some (s, events) ∧
      s.step (.tick ⟨3, .silent, .empty⟩) = some (next, emitted) ∧
      emitted = [.returned 0 (some [10])] ∧ (next.client.memory 0).rcode = .ready :=
    ⟨_, _, _, _, rfl, rfl, rfl, rfl⟩
  obtain ⟨events, s, next, emitted, run, fired, rfl, ready⟩ := run
  have verified := claim Unit fieldless _ events s _ next _ 0 (some [10]) (execute_path run) fired
    (by simp)
  have error := verified.corrupt [10] rfl rfl
  rw [ready] at error
  cases error

end Zqrpc
