import Zqrpc.ReplyList

/-! The order in which messages arrive. Receiving is a fold of one update a message, and
the updates of messages with different ids commute. -/
namespace Zqrpc

open Numeral Steps

/-- What reading a message does to the channel and the controllers, also when it throws. -/
def update (s : Client) (frames : FramesT) : Client :=
  match deliver frames s with
  | .ok s' => s'
  | .error _ => s

def Event.message : Event → Option FramesT
  | .consumed frames => some frames
  | _ => none

/-- The messages read from the socket, in their order. -/
def messagesRead (events : List Event) : List FramesT := events.filterMap Event.message

/-- No two outstanding requests have the same controller. -/
def Client.Single (s : Client) : Prop :=
  ∀ id id' c, s.channel.replylist.lookup id = some c →
    s.channel.replylist.lookup id' = some c → id = id'

/-- The two messages do not carry the same request id. -/
def Apart (m m' : FramesT) : Prop :=
  ∀ id, m.length = 4 → m'.length = 4 → Reads id m → ¬Reads id m'

theorem Apart.symm {m m' : FramesT} (apart : Apart m m') : Apart m' m :=
  fun id four four' reads reads' => apart id four' four reads' reads

instance : Std.Symm Apart := ⟨fun _ _ => Apart.symm⟩

theorem update_answers {s : Client} {m : FramesT} {id : Nat} {c : Ptr} (answers : Answers id m)
    (known : id ≤ s.channel.nextreply) (entry : s.channel.replylist.lookup id = some c) :
    update s m = s.ready id c (m.getD 3 []) := by
  rcases deliver_cases m s with ⟨id', c', answers', _, entry', ok⟩ | ⟨silent, _⟩
  · obtain rfl := answers.unique answers'
    obtain rfl := Option.some.inj (entry.symm.trans entry')
    rw [update, ok]
  · exact absurd entry (silent id c answers known)

theorem update_silent {s : Client} {m : FramesT}
    (silent : ∀ id c, Answers id m → id ≤ s.channel.nextreply →
      s.channel.replylist.lookup id ≠ some c) : update s m = s := by
  rcases deliver_cases m s with ⟨id, c, answers, known, entry, _⟩ | ⟨_, quiet | ⟨e, quiet⟩⟩
  · exact absurd entry (silent id c answers known)
  · rw [update, quiet]
  · rw [update, quiet]

/-- An update stores a reply or does nothing. -/
theorem update_cases (s : Client) (m : FramesT) :
    (∃ id c, Answers id m ∧ id ≤ s.channel.nextreply ∧
      s.channel.replylist.lookup id = some c ∧ update s m = s.ready id c (m.getD 3 [])) ∨
    ((∀ id c, Answers id m → id ≤ s.channel.nextreply →
      s.channel.replylist.lookup id ≠ some c) ∧ update s m = s) := by
  rcases deliver_cases m s with ⟨id, c, answers, known, entry, _⟩ | ⟨silent, _⟩
  · exact .inl ⟨id, c, answers, known, entry, update_answers answers known entry⟩
  · exact .inr ⟨silent, update_silent silent⟩

theorem update_nextreply (s : Client) (m : FramesT) :
    (update s m).channel.nextreply = s.channel.nextreply := by
  rcases update_cases s m with ⟨_, _, _, _, _, same⟩ | ⟨_, same⟩
  · rw [same, Client.ready_nextreply]
  · rw [same]

theorem update_entry {s : Client} {m : FramesT} {id : Nat} {c : Ptr}
    (entry : (update s m).channel.replylist.lookup id = some c) :
    s.channel.replylist.lookup id = some c := by
  rcases update_cases s m with ⟨_, _, _, _, _, same⟩ | ⟨_, same⟩
  · rw [same] at entry
    exact (Client.ready_entry entry).2
  · rwa [same] at entry

/-- Only a message with its id takes an entry out. -/
theorem update_keeps {s : Client} {m : FramesT} {id : Nat} {c : Ptr}
    (entry : s.channel.replylist.lookup id = some c) (other : ¬Answers id m) :
    (update s m).channel.replylist.lookup id = some c := by
  rcases update_cases s m with ⟨id', _, answers, _, _, same⟩ | ⟨_, same⟩
  · have apart : id ≠ id' := by
      rintro rfl
      exact other answers
    rw [same, Client.ready_replylist, Finmap.lookup_erase_ne apart, entry]
  · rw [same, entry]

theorem update_single {s : Client} (single : s.Single) (m : FramesT) : (update s m).Single :=
  fun id id' c entry entry' => single id id' c (update_entry entry) (update_entry entry')

theorem ready_comm (s : Client) (id id' : Nat) (c c' : Ptr) (payload payload' : Bytes)
    (different : c ≠ c') :
    (s.ready id c payload).ready id' c' payload' =
      (s.ready id' c' payload').ready id c payload := by
  simp only [Client.ready, Client.write, Finmap.erase_erase,
    Function.update_of_ne different, Function.update_of_ne different.symm,
    Function.update_comm different]

/-- A message that did nothing still does nothing after another one. -/
theorem update_idle {s : Client} {m : FramesT} (m' : FramesT)
    (silent : ∀ id c, Answers id m → id ≤ s.channel.nextreply →
      s.channel.replylist.lookup id ≠ some c) : update (update s m') m = update s m' := by
  apply update_silent
  intro id c answers known entry
  rw [update_nextreply] at known
  exact silent id c answers known (update_entry entry)

theorem update_comm {s : Client} {m m' : FramesT} (single : s.Single) (apart : Apart m m') :
    update (update s m) m' = update (update s m') m := by
  rcases update_cases s m with ⟨id, c, answers, known, entry, same⟩ | ⟨silent, same⟩
  · rcases update_cases s m' with ⟨id', c', answers', known', entry', same'⟩ | ⟨silent', same'⟩
    · have ids : id ≠ id' := by
        rintro rfl
        exact apart id answers.1 answers'.1 answers.2.1 answers'.2.1
      have controllers : c ≠ c' := by
        rintro rfl
        exact ids (single id id' c entry entry')
      have first : update (s.ready id c (m.getD 3 [])) m' =
          (s.ready id c (m.getD 3 [])).ready id' c' (m'.getD 3 []) := by
        refine update_answers answers' known' ?_
        rw [Client.ready_replylist, Finmap.lookup_erase_ne ids.symm, entry']
      have second : update (s.ready id' c' (m'.getD 3 [])) m =
          (s.ready id' c' (m'.getD 3 [])).ready id c (m.getD 3 []) := by
        refine update_answers answers known ?_
        rw [Client.ready_replylist, Finmap.lookup_erase_ne ids, entry]
      rw [same, same', first, second]
      exact ready_comm s id id' c c' _ _ controllers
    · rw [update_idle m silent', same']
  · rw [update_idle m' silent, same]

/-- The update of a client whose outstanding requests have distinct controllers. -/
def settle (s : { s : Client // s.Single }) (m : FramesT) : { s : Client // s.Single } :=
  ⟨update s.1 m, update_single s.2 m⟩

theorem foldl_settle (messages : List FramesT) (s : { s : Client // s.Single }) :
    (messages.foldl settle s).1 = messages.foldl update s.1 := by
  induction messages generalizing s with
  | nil => rfl
  | cons m messages ih => exact ih (settle s m)

theorem foldl_update_perm {s : Client} {messages messages' : List FramesT} (single : s.Single)
    (apart : messages.Pairwise Apart) (same : messages.Perm messages') :
    messages.foldl update s = messages'.foldl update s := by
  have settled : messages.foldl settle ⟨s, single⟩ = messages'.foldl settle ⟨s, single⟩ := by
    apply same.foldl_eq'
    intro m member m' member' z
    by_cases equal : m = m'
    · rw [equal]
    · exact Subtype.ext (update_comm z.2 (apart.forall member member' equal))
  rw [← foldl_settle messages ⟨s, single⟩, settled, foldl_settle]

theorem foldl_update_keeps {s : Client} {messages : List FramesT} {id : Nat} {c : Ptr}
    (entry : s.channel.replylist.lookup id = some c) (others : ∀ m ∈ messages, ¬Answers id m) :
    (messages.foldl update s).channel.replylist.lookup id = some c ∧
      (messages.foldl update s).channel.nextreply = s.channel.nextreply := by
  induction messages generalizing s with
  | nil => exact ⟨entry, rfl⟩
  | cons m messages ih =>
    obtain ⟨kept, counter⟩ := ih (update_keeps entry (others m List.mem_cons_self))
      fun m' member => others m' (List.mem_cons_of_mem m member)
    exact ⟨kept, counter.trans (update_nextreply s m)⟩

/-- Wherever it stands among the messages, a success reply is stored. -/
theorem foldl_update_ready {s : Client} {messages : List FramesT} {id : Nat} {c : Ptr}
    {m : FramesT} (single : s.Single) (apart : messages.Pairwise Apart)
    (known : id ≤ s.channel.nextreply) (entry : s.channel.replylist.lookup id = some c)
    (member : m ∈ messages) (answers : Answers id m) :
    ((messages.foldl update s).memory c).rcode = .ready ∧
      ((messages.foldl update s).memory c).payload = m.getD 3 [] := by
  obtain ⟨before, after, rfl⟩ := List.append_of_mem member
  have front : (before ++ m :: after).Perm (m :: (before ++ after)) := List.perm_middle
  have others : ∀ m' ∈ before ++ after, ¬Answers id m' := fun m' member' answers' =>
    (List.pairwise_cons.mp ((front.pairwise_iff Apart.symm).mp apart)).1 m' member' id
      answers.1 answers'.1 answers.2.1 answers'.2.1
  obtain ⟨kept, counter⟩ := foldl_update_keeps entry others
  have last := foldl_update_perm single apart (front.trans (List.perm_append_singleton m _).symm)
  rw [last, List.foldl_append, List.foldl_cons, List.foldl_nil,
    update_answers answers (by rwa [counter]) kept]
  simp

theorem messagesRead_append (events more : List Event) :
    messagesRead (events ++ more) = messagesRead events ++ messagesRead more := by
  simp [messagesRead, List.filterMap_append]

theorem message_around (e : Event) (around : e.Around) : e.message = none := by
  cases e <;> first | rfl | exact around.elim

theorem step_receives (s next : Session) (input : Input) (emitted : List Event)
    (receiving : senders [input] = []) (fired : s.step input = some (next, emitted)) :
    next.client = (messagesRead emitted).foldl update s.client := by
  cases input with
  | send c => cases receiving
  | recv c timeout start =>
    obtain ⟨_, rfl, rfl⟩ := s.step_recv next c timeout start emitted fired
    rfl
  | tick t =>
    obtain ⟨before, after, around, ⟨same, rfl⟩ | ⟨frames, _, rfl, _⟩⟩ :=
      s.step_tick next t emitted fired
    · rw [messagesRead, filterMap_around message_around around, same]
      rfl
    · have read : messagesRead (before ++ .consumed frames :: after) = [frames] :=
        filterMap_consumed message_around frames around
      rw [read, List.foldl_cons, List.foldl_nil, update]
      obtain ⟨_, result | ⟨_, _, _, result, same, _⟩⟩ :=
        s.step_consumed next t _ frames fired (by simp)
      · rw [result]
      · rw [result, same]

/-- A run of receive calls folds the update over the messages it reads, wherever its
calls begin and end. -/
theorem run_receives (run : Path (Fires Session.step) s inputs events s')
    (receiving : senders inputs = []) :
    s'.client = (messagesRead events).foldl update s.client := by
  induction run with
  | nil => rfl
  | snoc _ last ih =>
    rw [senders_append] at receiving
    obtain ⟨earlier, now⟩ := List.append_eq_nil_iff.mp receiving
    rw [messagesRead_append, List.foldl_append, ← ih earlier]
    exact step_receives _ _ _ _ now last

/-- With fewer sends than ids, no outstanding id is above the counter. -/
theorem run_bounded (run : Path (Fires Session.step) {} inputs events s)
    (fewer : (senders inputs).length < sizeMod) :
    (∀ id c, s.client.channel.replylist.lookup id = some c →
      id ≤ s.client.channel.nextreply) ∧
    s.client.channel.nextreply ≤ (senders inputs).length := by
  induction run with
  | nil => exact ⟨by simp, le_refl _⟩
  | @snoc inputs events s input emitted next _ last ih =>
    rw [senders_append, List.length_append] at fewer ⊢
    obtain ⟨bound, counted⟩ := ih (by omega)
    have fits : Fits s input := by
      intro c sends
      rw [sender_of_sendsOn sends] at fewer
      exact Nat.mod_eq_of_lt (Nat.lt_of_le_of_lt (Nat.succ_le_succ counted) fewer)
    have grows := step_nextreply_grows s next input emitted fits last
    have := step_nextreply s next input emitted last
    refine ⟨fun id c entry => ?_, by omega⟩
    rcases step_effect s next input emitted last with same | ⟨c', sends, same |
      ⟨channel, code, same, entries⟩⟩ | ⟨_, _, _, _, same⟩
    · exact (bound id c (same ▸ entry)).trans grows
    · rw [same] at entry
      rcases Client.outstanding_entry entry with ⟨rfl, _⟩ | ⟨_, old⟩
      · rw [same, Client.outstanding_nextreply]
      · exact (bound id c old).trans grows
    · rw [same, Client.fail_channel, entries] at entry
      exact (bound id c entry).trans grows
    · rw [same] at entry
      exact (bound id c (Client.ready_entry entry).2).trans grows

/-- After fewer than 2^64 sends it makes no difference in which order messages with
different ids arrive, and in which calls they are read. -/
theorem receiving_order_independent (sends : Path (Fires Session.step) {} inputs events s)
    (fewer : (senders inputs).length < 2 ^ 64) (single : s.client.Single)
    (one : Path (Fires Session.step) s inputs₁ events₁ s₁) (receiving₁ : senders inputs₁ = [])
    (two : Path (Fires Session.step) s inputs₂ events₂ s₂) (receiving₂ : senders inputs₂ = [])
    (apart : (messagesRead events₁).Pairwise Apart)
    (same : (messagesRead events₁).Perm (messagesRead events₂)) :
    s₁.client.channel.replylist = s₂.client.channel.replylist ∧
    s₁.client.memory = s₂.client.memory ∧
    ∀ id c m, s.client.channel.replylist.lookup id = some c → m ∈ messagesRead events₁ →
      Answers id m →
      (s₁.client.memory c).rcode = .ready ∧ (s₁.client.memory c).payload = m.getD 3 [] := by
  have folded := run_receives one receiving₁
  have equal : s₁.client = s₂.client := by
    rw [folded, foldl_update_perm single apart same]
    exact (run_receives two receiving₂).symm
  refine ⟨by rw [equal], by rw [equal], fun id c m entry member answers => ?_⟩
  rw [folded]
  exact foldl_update_ready single apart ((run_bounded sends fewer).1 id c entry) entry member
    answers

/-- Two requests, and their replies in the order of the requests or the other way round. -/
def bothAsked : List Input :=
  [.send 0 (ascii "m") (.bytes []) acceptAll, .send 1 (ascii "m") (.bytes []) acceptAll]

def replyOne : FramesT := [[], ascii "1", ascii "0", ascii "a"]
def replyTwo : FramesT := [[], ascii "2", ascii "0", ascii "b"]

def receivingBoth (c : Ptr) (first second : FramesT) : List Input :=
  [.recv c 100 0, .tick ⟨0, .readable, .message first⟩, .tick ⟨0, .readable, .message second⟩]

theorem receiving_order_independent_both : ∃ events s events₁ s₁ events₂ s₂,
    Path (Fires Session.step) {} bothAsked events s ∧
    Path (Fires Session.step) s (receivingBoth 0 replyOne replyTwo) events₁ s₁ ∧
    Path (Fires Session.step) s (receivingBoth 1 replyTwo replyOne) events₂ s₂ ∧
    s₁.client.memory = s₂.client.memory := by
  have run : ∃ events s events₁ s₁ events₂ s₂,
      execute (restrict Unworked Session.step) bothAsked {} = some (s, events) ∧
      execute Session.step (receivingBoth 0 replyOne replyTwo) s = some (s₁, events₁) ∧
      execute Session.step (receivingBoth 1 replyTwo replyOne) s = some (s₂, events₂) ∧
      messagesRead events₁ = [replyOne, replyTwo] ∧ messagesRead events₂ = [replyTwo, replyOne] :=
    ⟨_, _, _, _, _, _, rfl, rfl, rfl, rfl, rfl⟩
  obtain ⟨events, s, events₁, s₁, events₂, s₂, unworked, one, two, read₁, read₂⟩ := run
  have sends := (restrict_path unworked).mono fun _ _ _ _ meets => meets.2
  have single : s.client.Single :=
    (run_represents (restrict_path unworked) (by decide)).1.held.single
  have apart : Apart replyOne replyTwo := by
    intro id _ _ reads reads'
    have first : some 1 = some id := reads
    have second : some 2 = some id := reads'
    rw [← first] at second
    cases second
  refine ⟨events, s, events₁, s₁, events₂, s₂, sends, execute_path one, execute_path two, ?_⟩
  refine (receiving_order_independent sends (by decide) single (execute_path one) rfl
    (execute_path two) rfl ?_ ?_).2.1
  · rw [read₁]
    simp [apart]
  · rw [read₁, read₂]
    exact List.Perm.swap _ _ _

/-- The socket throws at the first frame. -/
def interruptedSend : Input := .send 1 (ascii "m") (.bytes []) fun _ => .threw

/-- Request 1 of controller 0 is outstanding, and the counter is at `a`. -/
def worn (a : Nat) : Session where
  client :=
    { channel := ⟨[], Finmap.insert 1 0 ∅, a⟩
      memory := Function.update
        (Function.update (fun _ => {}) 0 { rcode := .working, reqno := 0 }) 1
        { rcode := .error, zerror := ⟨.connectionError, cStr []⟩ } }

theorem worn_interrupted (a : Nat) :
    (worn a).step interruptedSend = some (worn ((a + 1) % sizeMod), [.failed 1]) := by
  have stepped : (worn a).step interruptedSend = some
      (⟨((worn ((a + 1) % sizeMod)).client.write 1
        { rcode := .error, zerror := ⟨.connectionError, cStr []⟩ }), none⟩, [.failed 1]) := rfl
  rw [stepped, Client.write, worn, Function.update_idem]

theorem worn_out (n a : Nat) (fits : a < sizeMod) : ∃ events,
    Path (Fires Session.step) (worn a) (List.replicate n interruptedSend) events
      (worn ((a + n) % sizeMod)) := by
  induction n generalizing a with
  | zero =>
    rw [Nat.add_zero, Nat.mod_eq_of_lt fits]
    exact ⟨[], .nil⟩
  | succ n ih =>
    obtain ⟨events, later⟩ := ih ((a + 1) % sizeMod) (Nat.mod_lt _ (by decide))
    rw [Nat.mod_add_mod, Nat.add_assoc, Nat.add_comm 1 n] at later
    exact ⟨_, .cons (worn_interrupted a) later⟩

/-- When 2^64 sends have brought the counter back to 0, the reply to the first request is
taken for a rogue. -/
theorem worn_reply_rejected : ¬∀ inputs events s inputs₁ events₁ s₁ inputs₂ events₂ s₂,
    Path (Fires Session.step) {} inputs events s → s.client.Single →
    Path (Fires Session.step) s inputs₁ events₁ s₁ → senders inputs₁ = [] →
    Path (Fires Session.step) s inputs₂ events₂ s₂ → senders inputs₂ = [] →
    (messagesRead events₁).Pairwise Apart →
    (messagesRead events₁).Perm (messagesRead events₂) →
    s₁.client.channel.replylist = s₂.client.channel.replylist ∧
    s₁.client.memory = s₂.client.memory ∧
    ∀ id c m, s.client.channel.replylist.lookup id = some c → m ∈ messagesRead events₁ →
      Answers id m →
      (s₁.client.memory c).rcode = .ready ∧ (s₁.client.memory c).payload = m.getD 3 [] := by
  intro claim
  have first : ∃ events, execute Session.step
      [.send 0 (ascii "m") (.bytes []) acceptAll, interruptedSend] {} = some (worn 2, events) :=
    ⟨_, rfl⟩
  obtain ⟨events, first⟩ := first
  obtain ⟨events', rest⟩ := worn_out (2 ^ 64 - 2) 2 (by decide)
  have last : ∃ events₁ s₁, execute Session.step
      [.recv 0 100 0, .tick ⟨0, .readable, .message replyOne⟩] (worn 0) = some (s₁, events₁) ∧
      messagesRead events₁ = [replyOne] ∧ (s₁.client.memory 0).rcode = .working :=
    ⟨_, _, rfl, rfl, rfl⟩
  obtain ⟨events₁, s₁, last, read, waits⟩ := last
  have single : (worn 0).client.Single := by
    intro id id' c entry entry'
    have only (k : Nat) (mine : (Finmap.insert 1 0 (∅ : ReplyListT)).lookup k = some c) :
        k = 1 := by
      by_contra other
      rw [Finmap.lookup_insert_of_ne _ other, Finmap.lookup_empty] at mine
      cases mine
    rw [only id entry, only id' entry']
  have holds := claim _ _ _ _ events₁ s₁ _ _ _ ((execute_path first).append rest) single
    (execute_path last) rfl (execute_path last) rfl (by rw [read]; simp) (List.Perm.refl _)
  have ready := (holds.2.2 1 0 replyOne rfl (by rw [read]; simp) ⟨rfl, rfl, rfl⟩).1
  rw [waits] at ready
  cases ready

end Zqrpc
