import Mathlib

/-! Finite runs of a system that takes inputs and emits events. A step relation
reads "in this state this input emits these events and leads to that state". -/
namespace Steps

variable {S I E : Type*}

/-- Runs grow at their end, so a property of the events so far is an invariant. -/
inductive Path (step : S → I → List E → S → Prop) (start : S) :
    List I → List E → S → Prop where
  | nil : Path step start [] [] start
  | snoc : Path step start inputs events s → step s input emitted next →
      Path step start (inputs ++ [input]) (events ++ emitted) next

/-- The step relation of a function that refuses an input with `none`. -/
def Fires (f : S → I → Option (S × List E)) (s : S) (input : I) (emitted : List E)
    (next : S) : Prop :=
  f s input = some (next, emitted)

/-- The steps whose state before and input meet a condition. -/
def Meeting (condition : S → I → Prop) (step : S → I → List E → S → Prop) (s : S)
    (input : I) (emitted : List E) (next : S) : Prop :=
  condition s input ∧ step s input emitted next

/-- The steps that lead to a state with a property. -/
def Reaching (property : S → Prop) (step : S → I → List E → S → Prop) (s : S)
    (input : I) (emitted : List E) (next : S) : Prop :=
  property next ∧ step s input emitted next

variable {step : S → I → List E → S → Prop} {start : S}

theorem Path.single (h : step s input emitted next) : Path step s [input] emitted next := by
  simpa using Path.snoc Path.nil h

theorem Path.append (first : Path step start inputs events middle)
    (second : Path step middle inputs' events' final) :
    Path step start (inputs ++ inputs') (events ++ events') final := by
  induction second with
  | nil => simpa using first
  | snoc _ last ih => simpa only [List.append_assoc] using Path.snoc ih last

theorem Path.cons (head : step start input emitted middle)
    (tail : Path step middle inputs events final) :
    Path step start (input :: inputs) (emitted ++ events) final := by
  simpa using (Path.single head).append tail

/-- What one step preserves, every run preserves. -/
theorem Path.invariant (property : List I → List E → S → Prop)
    (preserved : ∀ inputs events s input emitted next, property inputs events s →
      step s input emitted next → property (inputs ++ [input]) (events ++ emitted) next)
    (path : Path step start inputs events final) (initial : property [] [] start) :
    property inputs events final := by
  induction path with
  | nil => exact initial
  | snoc _ last ih => exact preserved _ _ _ _ _ _ ih last

theorem Path.state_invariant (property : S → Prop)
    (preserved : ∀ s input emitted next, property s → step s input emitted next → property next)
    (path : Path step start inputs events final) (initial : property start) :
    property final :=
  path.invariant (fun _ _ s => property s)
    (fun _ _ s input emitted next => preserved s input emitted next) initial

theorem Path.mono {step' : S → I → List E → S → Prop}
    (weaker : ∀ s input emitted next, step s input emitted next → step' s input emitted next)
    (path : Path step start inputs events final) : Path step' start inputs events final := by
  induction path with
  | nil => exact .nil
  | snoc _ last ih => exact .snoc ih (weaker _ _ _ _ last)

/-- A condition on the inputs alone. -/
theorem Path.meeting {condition : S → I → Prop} (path : Path step start inputs events final)
    (meets : ∀ input ∈ inputs, ∀ s, condition s input) :
    Path (Meeting condition step) start inputs events final := by
  induction path with
  | nil => exact .nil
  | snoc _ last ih =>
    apply Path.snoc (ih fun input member => meets input (List.mem_append_left _ member))
    exact ⟨meets _ (by simp) _, last⟩

/-- Two conditions on the steps are one. -/
theorem Path.meeting_meeting {condition condition' : S → I → Prop} :
    Path (Meeting condition (Meeting condition' step)) start inputs events final ↔
      Path (Meeting (fun s input => condition' s input ∧ condition s input) step) start inputs
        events final :=
  ⟨Path.mono fun _ _ _ _ ⟨outer, inner, taken⟩ => ⟨⟨inner, outer⟩, taken⟩,
    Path.mono fun _ _ _ _ ⟨⟨inner, outer⟩, taken⟩ => ⟨outer, inner, taken⟩⟩

/-- Where an invariant makes a condition say of every step whether it leads to a property,
the runs whose states all have the property are those whose steps all meet the condition. -/
theorem Path.reaching_iff_meeting {property : S → Prop} {condition : S → I → Prop}
    (invariant : S → Prop)
    (preserved : ∀ s input emitted next, invariant s → condition s input →
      step s input emitted next → invariant next)
    (decides : ∀ s input emitted next, invariant s → step s input emitted next →
      (property next ↔ condition s input)) (initial : invariant start) :
    Path (Reaching property step) start inputs events final ↔
      Path (Meeting condition step) start inputs events final := by
  have kept {inputs events s} (path : Path (Meeting condition step) start inputs events s) :
      invariant s :=
    path.state_invariant invariant
      (fun _ _ _ _ holds taken => preserved _ _ _ _ holds taken.1 taken.2) initial
  constructor
  · intro path
    induction path with
    | nil => exact .nil
    | snoc _ last ih => exact .snoc ih ⟨(decides _ _ _ _ (kept ih) last.2).mp last.1, last.2⟩
  · intro path
    induction path with
    | nil => exact .nil
    | snoc earlier last ih =>
      exact .snoc ih ⟨(decides _ _ _ _ (kept earlier) last.2).mpr last.1, last.2⟩

/-- Where each step of one system is matched by a run of another, so is each run. The inputs
of both that are seen from outside are the same, and no input of the other system comes
from nowhere. -/
theorem Path.simulated {S' I' E' O : Type*} {step' : S' → I' → List E' → S' → Prop}
    (related : S → S' → Prop) (seen : I → Option O) (seen' : I' → Option O)
    (derived : I → I' → Prop)
    (matched : ∀ s input emitted next t, related s t → step s input emitted next →
      ∃ inputs' events' u, Path step' t inputs' events' u ∧ related next u ∧
        inputs'.filterMap seen' = [input].filterMap seen ∧ ∀ input' ∈ inputs', derived input input')
    (path : Path step start inputs events final) {start' : S'} (initial : related start start') :
    ∃ inputs' events' final', Path step' start' inputs' events' final' ∧ related final final' ∧
      inputs'.filterMap seen' = inputs.filterMap seen ∧
      ∀ input' ∈ inputs', ∃ input ∈ inputs, derived input input' := by
  induction path with
  | nil => exact ⟨[], [], start', .nil, initial, rfl, by simp⟩
  | @snoc inputs events s input emitted next _ last ih =>
    obtain ⟨inputs', events', t, earlier, held, same, origins⟩ := ih
    obtain ⟨more, moreEvents, u, later, held', same', origins'⟩ := matched _ _ _ _ _ held last
    refine ⟨inputs' ++ more, events' ++ moreEvents, u, earlier.append later, held', ?_, ?_⟩
    · rw [List.filterMap_append, List.filterMap_append, same, same']
    · intro input' member
      rcases List.mem_append.mp member with before | now
      · obtain ⟨origin, there, made⟩ := origins input' before
        exact ⟨origin, List.mem_append_left _ there, made⟩
      · exact ⟨input, by simp, origins' input' now⟩

/-- Where a measure of the inputs goes down as long as something is left to do, every run can
be continued to its end. -/
theorem Path.completed (holds : List I → S → Prop) (done : S → Prop) (measure : List I → Nat)
    (progress : ∀ inputs events s, Path step start inputs events s → holds inputs s → ¬done s →
      ∃ more emitted next, Path step s more emitted next ∧ holds (inputs ++ more) next ∧
        measure (inputs ++ more) < measure inputs)
    (path : Path step start inputs events s) (held : holds inputs s) :
    ∃ more emitted last, Path step s more emitted last ∧ holds (inputs ++ more) last ∧
      done last := by
  generalize same : measure inputs = m
  induction m using Nat.strong_induction_on generalizing inputs events s with
  | _ m ih =>
    by_cases ended : done s
    · exact ⟨[], [], s, .nil, by simpa using held, ended⟩
    · obtain ⟨front, emitted, next, taken, held', smaller⟩ := progress _ _ _ path held ended
      obtain ⟨back, emitted', last, rest, held'', ended'⟩ :=
        ih _ (same ▸ smaller) (path.append taken) held' rfl
      exact ⟨front ++ back, emitted ++ emitted', last, taken.append rest,
        by rwa [List.append_assoc] at held'', ended'⟩

/-- Running a function over a list of inputs. -/
def execute (f : S → I → Option (S × List E)) : List I → S → Option (S × List E)
  | [], s => some (s, [])
  | input :: inputs, s =>
    match f s input with
    | none => none
    | some (next, emitted) =>
      (execute f inputs next).map fun result => (result.1, emitted ++ result.2)

theorem execute_path {f : S → I → Option (S × List E)}
    (h : execute f inputs s = some (final, events)) : Path (Fires f) s inputs events final := by
  induction inputs generalizing s events with
  | nil =>
    simp only [execute, Option.some.injEq, Prod.mk.injEq] at h
    obtain ⟨rfl, rfl⟩ := h
    exact .nil
  | cons input inputs ih =>
    simp only [execute] at h
    split at h
    · cases h
    · rename_i next emitted fired
      obtain ⟨⟨last, rest⟩, tail, same⟩ := Option.map_eq_some_iff.mp h
      obtain ⟨rfl, rfl⟩ := Prod.mk.inj same
      exact .cons fired (ih tail)

/-- What each input of a run adds to a record that the states do not keep. -/
def along {H : Type*} (note : S → I → List H) (f : S → I → Option (S × List E)) :
    List I → S → List H
  | [], _ => []
  | input :: inputs, s =>
    note s input ++
      match f s input with
      | none => []
      | some (next, _) => along note f inputs next

theorem Path.along_append {H : Type*} {note : S → I → List H} {f : S → I → Option (S × List E)}
    (path : Path (Fires f) start inputs events s) (more : List I) :
    along note f (inputs ++ more) start = along note f inputs start ++ along note f more s := by
  induction path generalizing more with
  | nil => rfl
  | @snoc inputs events s input emitted next earlier last ih =>
    have one (rest : List I) :
        along note f (input :: rest) s = note s input ++ along note f rest next := by
      rw [along, show f s input = some (next, emitted) from last]
    calc along note f (inputs ++ [input] ++ more) start
        = along note f inputs start ++ (note s input ++ along note f more next) := by
          rw [List.append_assoc, ih, List.singleton_append, one]
      _ = along note f (inputs ++ [input]) start ++ along note f more next := by
          rw [ih, one, along, List.append_nil, List.append_assoc]

theorem Path.along_snoc {H : Type*} {note : S → I → List H} {f : S → I → Option (S × List E)}
    (path : Path (Fires f) start inputs events s) (fired : f s input = some (next, emitted)) :
    along note f (inputs ++ [input]) start = along note f inputs start ++ note s input := by
  simp [path.along_append, along, fired]

theorem mem_along {H : Type*} {note : S → I → List H} {f : S → I → Option (S × List E)}
    {inputs : List I} {s : S} {noted : H} (member : noted ∈ along note f inputs s) :
    ∃ input ∈ inputs, ∃ s', noted ∈ note s' input := by
  induction inputs generalizing s with
  | nil => cases member
  | cons input inputs ih =>
    rcases List.mem_append.mp member with now | later
    · exact ⟨input, List.mem_cons_self, s, now⟩
    · split at later
      · cases later
      · obtain ⟨input', there, origin⟩ := ih later
        exact ⟨input', List.mem_cons_of_mem _ there, origin⟩

/-- A function that also refuses the inputs that do not meet a condition. -/
def restrict (condition : S → I → Prop) [∀ s input, Decidable (condition s input)]
    (f : S → I → Option (S × List E)) (s : S) (input : I) : Option (S × List E) :=
  if condition s input then f s input else none

theorem fires_restrict {condition : S → I → Prop} [∀ s input, Decidable (condition s input)]
    {f : S → I → Option (S × List E)} {s next : S} {input : I} {emitted : List E}
    (fired : Fires (restrict condition f) s input emitted next) :
    Meeting condition (Fires f) s input emitted next := by
  unfold Fires restrict at fired
  split at fired
  · rename_i meets
    exact ⟨meets, fired⟩
  · cases fired

theorem restrict_path {condition : S → I → Prop} [∀ s input, Decidable (condition s input)]
    {f : S → I → Option (S × List E)}
    (h : execute (restrict condition f) inputs s = some (final, events)) :
    Path (Meeting condition (Fires f)) s inputs events final :=
  (execute_path h).mono fun _ _ _ _ fired => fires_restrict fired

end Steps
