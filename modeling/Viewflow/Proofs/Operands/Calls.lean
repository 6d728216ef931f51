import Viewflow.Operand

namespace Viewflow.Operand

variable {α β γ σ ε : Type}

abbrev Fallible (σ ε β : Type) : Type := ExceptT ε (StateM σ) β

def outcome (x : Fallible σ ε β) (s : σ) : Except ε β × σ := x.run.run s

abbrev Call (α ε : Type) : Type := α × Except ε String

def answered (call : α × String) : Call α ε := (call.1, .ok call.2)

-- The same answers and states, with every call written down behind those before it.
def recorded (expand : α → Fallible σ ε String) (a : α) : Fallible (σ × List (Call α ε)) ε String :=
  ExceptT.mk fun (s, calls) =>
    let (answer, s') := outcome (expand a) s
    (answer, s', calls ++ [(a, answer)])

section
variable {x : Fallible σ ε β} {k : β → Fallible σ ε γ} {s s' : σ} {b : β} {e : ε}

theorem outcome_bind_ok (done : outcome x s = (.ok b, s')) : outcome (x >>= k) s = outcome (k b) s' := by
  simp only [outcome, ExceptT.run_bind, StateT.run_bind] at done ⊢
  simp [done, bind]

theorem outcome_bind_error (failed : outcome x s = (.error e, s')) :
    outcome (x >>= k) s = (.error e, s') := by
  simp only [outcome, ExceptT.run_bind, StateT.run_bind] at failed ⊢
  rw [failed]
  rfl

end

-- A computation, and the same with its calls written down. It calls for these leaves in order, and from the
-- texts that it is given for them it makes a value; or else a call fails, and it fails with that error.
def CallsFor (as : List α) (x : Fallible σ ε β) (x' : Fallible (σ × List (Call α ε)) ε β)
    (gives : List (α × String) → β → Prop) : Prop :=
  ∀ (s : σ) (past : List (Call α ε)),
    (∃ (calls : List (α × String)) (b : β) (s' : σ), calls.map Prod.fst = as ∧ gives calls b ∧
      outcome x s = (.ok b, s') ∧ outcome x' (s, past) = (.ok b, s', past ++ calls.map answered)) ∨
    ∃ (calls : List (α × String)) (a : α) (e : ε) (s' : σ), calls.map Prod.fst ++ [a] <+: as ∧
      outcome x s = (.error e, s') ∧
      outcome x' (s, past) = (.error e, s', past ++ calls.map answered ++ [(a, .error e)])

namespace CallsFor

variable {as bs : List α} {x : Fallible σ ε β} {x' : Fallible (σ × List (Call α ε)) ε β}
  {k : β → Fallible σ ε γ} {k' : β → Fallible (σ × List (Call α ε)) ε γ}
  {gives : List (α × String) → β → Prop} {gives' : β → List (α × String) → γ → Prop}

theorem pure (b : β) : CallsFor ([] : List α) (Pure.pure b : Fallible σ ε β) (Pure.pure b)
    fun calls c => calls = [] ∧ c = b :=
  fun s past => .inl ⟨[], b, s, rfl, ⟨rfl, rfl⟩, rfl, by rw [List.map_nil, List.append_nil]; rfl⟩

theorem expand (expand : α → Fallible σ ε String) (a : α) :
    CallsFor [a] (expand a) (recorded expand a) fun calls text => calls = [(a, text)] := by
  intro s past
  have written : outcome (recorded expand a) (s, past) =
      ((outcome (expand a) s).1, (outcome (expand a) s).2, past ++ [(a, (outcome (expand a) s).1)]) := rfl
  cases asked : outcome (expand a) s with
  | mk answer s' =>
    rw [asked] at written
    cases answer with
    | ok text => exact .inl ⟨[(a, text)], text, s', rfl, rfl, rfl, written⟩
    | error e => exact .inr ⟨[], a, e, s', List.prefix_refl _, rfl, by simpa using written⟩

theorem bind (first : CallsFor as x x' gives) (next : ∀ b, CallsFor bs (k b) (k' b) (gives' b)) :
    CallsFor (as ++ bs) (x >>= k) (x' >>= k') fun calls c =>
      ∃ before after b, calls = before ++ after ∧ gives before b ∧ gives' b after c := by
  intro s past
  obtain ⟨before, b, s₁, leaves, given, one, one'⟩ | ⟨before, a, e, s₁, leaves, one, one'⟩ := first s past
  · rw [outcome_bind_ok one, outcome_bind_ok one']
    obtain ⟨after, c, s₂, leaves', given', two, two'⟩ | ⟨after, a, e, s₂, leaves', two, two'⟩ :=
      next b s₁ (past ++ before.map answered)
    · refine .inl ⟨before ++ after, c, s₂, ?_, ⟨before, after, b, rfl, given, given'⟩, two, ?_⟩
      · rw [List.map_append, leaves, leaves']
      · rw [two', List.map_append, List.append_assoc]
    · refine .inr ⟨before ++ after, a, e, s₂, ?_, two, ?_⟩
      · rw [List.map_append, leaves, List.append_assoc]
        exact (List.prefix_append_right_inj as).mpr leaves'
      · rw [two', List.map_append, List.append_assoc past]
  · exact .inr ⟨before, a, e, s₁, leaves.trans (List.prefix_append ..), outcome_bind_error one,
      outcome_bind_error one'⟩

theorem weaken {weaker : List (α × String) → β → Prop} (calls : CallsFor as x x' gives)
    (implies : ∀ calls b, gives calls b → weaker calls b) : CallsFor as x x' weaker := by
  intro s past
  obtain ⟨before, b, s', leaves, given, run⟩ | failed := calls s past
  · exact .inl ⟨before, b, s', leaves, implies _ _ given, run⟩
  · exact .inr failed

theorem then_pure (first : CallsFor as x x' gives) (f : β → γ) :
    CallsFor as (x >>= fun b => Pure.pure (f b)) (x' >>= fun b => Pure.pure (f b)) fun calls c =>
      ∃ b, gives calls b ∧ c = f b := by
  have both := first.bind fun b => pure (f b)
  rw [List.append_nil] at both
  apply both.weaken
  rintro calls c ⟨before, after, b, rfl, given, rfl, rfl⟩
  exact ⟨b, by simpa using given, rfl⟩

end CallsFor

section
variable {f : α → β} {text : α → String}

mutual

theorem leaves_map : ∀ o : Operand α, (o.map f).leaves = o.leaves.map f
  | .leaf a => rfl
  | .not o => by rw [map, leaves, leaves, leaves_map o]
  | .allOf os => by rw [map, leaves, leaves, leavesOfEach_mapEach os]
  | .anyOf os => by rw [map, leaves, leaves, leavesOfEach_mapEach os]

theorem leavesOfEach_mapEach : ∀ os : List (Operand α), leavesOfEach (mapEach f os) = (leavesOfEach os).map f
  | [] => rfl
  | o :: os => by
    rw [mapEach, leavesOfEach, leavesOfEach, List.map_append, leaves_map o, leavesOfEach_mapEach os]

end

theorem render_each (os : List (Operand α)) :
    Id.run (renderEachM (fun a => text a) os) = os.map (render text) := by
  induction os with
  | nil => rfl
  | cons o os ih => exact congrArg (render text o :: ·) ih

theorem render_allOf (os : List (Operand α)) :
    render text (.allOf os) = combined " && " "true" (os.map (render text)) := by
  rw [← render_each]
  rfl

theorem render_anyOf (os : List (Operand α)) :
    render text (.anyOf os) = combined " || " "false" (os.map (render text)) := by
  rw [← render_each]
  rfl

end

def Gives (o : Operand α) (calls : List (α × String)) (text : String) : Prop :=
  ∃ t : Operand (α × String), t.map Prod.fst = o ∧ t.leaves = calls ∧ text = t.render Prod.snd

def GivesEach (os : List (Operand α)) (calls : List (α × String)) (parts : List String) : Prop :=
  ∃ ts : List (Operand (α × String)), mapEach Prod.fst ts = os ∧ leavesOfEach ts = calls ∧
    parts = ts.map (render Prod.snd)

mutual

theorem callsFor_renderM (expand : α → Fallible σ ε String) : ∀ o : Operand α,
    CallsFor o.leaves (o.renderM expand) (o.renderM (recorded expand)) o.Gives
  | .leaf a => by
    apply (CallsFor.expand expand a).weaken
    rintro calls text rfl
    exact ⟨.leaf (a, text), rfl, rfl, rfl⟩
  | .not o => by
    apply ((callsFor_renderM expand o).then_pure fun part => "!" ++ parenthesized part).weaken
    rintro calls _ ⟨_, ⟨t, rfl, rfl, rfl⟩, rfl⟩
    exact ⟨.not t, rfl, rfl, rfl⟩
  | .allOf os => by
    apply ((callsFor_renderEachM expand os).then_pure (combined " && " "true")).weaken
    rintro calls _ ⟨_, ⟨ts, rfl, rfl, rfl⟩, rfl⟩
    exact ⟨.allOf ts, rfl, rfl, (render_allOf ts).symm⟩
  | .anyOf os => by
    apply ((callsFor_renderEachM expand os).then_pure (combined " || " "false")).weaken
    rintro calls _ ⟨_, ⟨ts, rfl, rfl, rfl⟩, rfl⟩
    exact ⟨.anyOf ts, rfl, rfl, (render_anyOf ts).symm⟩

theorem callsFor_renderEachM (expand : α → Fallible σ ε String) : ∀ os : List (Operand α),
    CallsFor (leavesOfEach os) (renderEachM expand os) (renderEachM (recorded expand) os) (GivesEach os)
  | [] => by
    apply (CallsFor.pure []).weaken
    rintro calls _ ⟨rfl, rfl⟩
    exact ⟨[], rfl, rfl, rfl⟩
  | o :: os => by
    apply ((callsFor_renderM expand o).bind fun part =>
      (callsFor_renderEachM expand os).then_pure (part :: ·)).weaken
    rintro calls _ ⟨_, _, _, rfl, ⟨t, rfl, rfl, rfl⟩, _, ⟨ts, rfl, rfl, rfl⟩, rfl⟩
    exact ⟨t :: ts, rfl, rfl, rfl⟩

end

-- The calls, written down, are for the leaves in order, the last of them the first that failed. Writing them
-- down changes nothing. Where none failed, every leaf was called for as often as it stands in the tree, and
-- the text is that of the tree with what was given for its leaves; or else the error is that of the last.
theorem renderM_calls (expand : α → Fallible σ ε String) (o : Operand α) (s : σ) :
    ∃ (calls : List (Call α ε)) (answer : Except ε String) (s' : σ),
      outcome (o.renderM expand) s = (answer, s') ∧
      outcome (o.renderM (recorded expand)) (s, []) = (answer, s', calls) ∧
      ((∃ t : Operand (α × String), t.map Prod.fst = o ∧ calls = t.leaves.map answered ∧
          calls.map Prod.fst = o.leaves ∧ answer = .ok (t.render Prod.snd)) ∨
        ∃ (before : List (α × String)) (a : α) (e : ε), calls = before.map answered ++ [(a, .error e)] ∧
          calls.map Prod.fst <+: o.leaves ∧ answer = .error e) := by
  obtain ⟨_, _, s', _, ⟨t, rfl, rfl, rfl⟩, run, written⟩ | ⟨before, a, e, s', leaves, run, written⟩ :=
    callsFor_renderM expand o s []
  · refine ⟨_, _, s', run, written, .inl ⟨t, rfl, rfl, ?_, rfl⟩⟩
    rw [List.nil_append, List.map_map, leaves_map]
    rfl
  · refine ⟨_, _, s', run, written, .inr ⟨before, a, e, rfl, ?_, rfl⟩⟩
    rw [List.nil_append, List.map_append, List.map_map]
    exact leaves

end Viewflow.Operand
