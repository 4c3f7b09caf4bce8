import Mathlib.Algebra.BigOperators.Group.Finset.Basic
import Mathlib.Data.Fintype.Basic
import StorageStack.Lib.Outcome

/-!
# Runs

A machine takes calls one after the other. A condition on calls is checked at each call in the state it
is made in, and an invariant that every such call keeps holds at the end of every such run.
-/

namespace StorageStack.Lib

variable {C W : Type} {step : C → W → Outcome W} {ok : C → W → Prop} {Inv : W → Prop}

def runAll (step : C → W → Outcome W) : List C → W → Outcome W
  | [], w => .ok w
  | c :: cs, w => do runAll step cs (← step c w)

/-- Every call of the run meets `ok` where it is made. -/
def Meets (step : C → W → Outcome W) (ok : C → W → Prop) : List C → W → Prop
  | [], _ => True
  | c :: cs, w => ok c w ∧ ∀ w', step c w = .ok w' → Meets step ok cs w'

instance [∀ c w, Decidable (ok c w)] : ∀ cs w, Decidable (Meets step ok cs w)
  | [], _ => .isTrue trivial
  | c :: cs, w =>
    have : Decidable (∀ w', step c w = .ok w' → Meets step ok cs w') :=
      match h : step c w with
      | .ok w' =>
        have := instDecidableMeets cs w'
        decidable_of_iff (Meets step ok cs w') ⟨fun m w₁ same => Except.ok.inj same ▸ m, fun m => m w' rfl⟩
      | .error e => .isTrue fun w' same => by cases same
    inferInstanceAs (Decidable (_ ∧ _))

theorem runAll_keeps (Inv : W → Prop) (kept : ∀ c w, Inv w → ok c w → ∃ w', step c w = .ok w' ∧ Inv w') {cs : List C} {w : W}
    (start : Inv w) (meets : Meets step ok cs w) : ∃ w', runAll step cs w = .ok w' ∧ Inv w' := by
  induction cs generalizing w with
  | nil => exact ⟨w, rfl, start⟩
  | cons c cs ih =>
    obtain ⟨w₁, here, inv⟩ := kept c w start meets.1
    obtain ⟨w', rest, inv'⟩ := ih inv (meets.2 w₁ here)
    exact ⟨w', by rw [runAll, here, ok_bind, rest], inv'⟩

/-- Every call has an effect of its own that the other calls keep. Then a run has all effects, whatever the
order of its calls. -/
theorem runAll_each (Inv : W → Prop) (Effect : C → W → Prop) {cs : List C} {w : W} (nodup : cs.Nodup) (start : Inv w)
    (each : ∀ c ∈ cs, ∀ w, Inv w → ∃ w', step c w = .ok w' ∧ Inv w' ∧ Effect c w' ∧ ∀ c', c' ≠ c → Effect c' w → Effect c' w') :
    ∃ w', runAll step cs w = .ok w' ∧ Inv w' ∧ (∀ c ∈ cs, Effect c w') ∧ ∀ c, c ∉ cs → Effect c w → Effect c w' := by
  induction cs generalizing w with
  | nil => exact ⟨w, rfl, start, fun c m => absurd m List.not_mem_nil, fun _ _ held => held⟩
  | cons c cs ih =>
    obtain ⟨new, nodup⟩ := List.nodup_cons.mp nodup
    obtain ⟨w₁, here, inv, effect, kept⟩ := each c (List.mem_cons_self ..) w start
    obtain ⟨w', rest, inv', effects, kept'⟩ := ih nodup inv fun c m => each c (List.mem_cons_of_mem _ m)
    refine ⟨w', by rw [runAll, here, ok_bind, rest], inv', fun c' m => ?_, fun c' other held => ?_⟩
    · rcases List.mem_cons.mp m with rfl | m
      · exact kept' c' new effect
      · exact effects c' m
    · rw [List.mem_cons, not_or] at other
      exact kept' c' other.2 (kept c' other.1 held)

theorem runAll_append (cs cs' : List C) (w : W) :
    runAll step (cs ++ cs') w = (runAll step cs w >>= fun w' => runAll step cs' w') := by
  induction cs generalizing w with
  | nil => rfl
  | cons c cs ih =>
    rw [List.cons_append, runAll, runAll]
    cases step c w with
    | error e => rfl
    | ok w₁ => exact ih w₁

theorem Meets.front {cs cs' : List C} {w : W} (meets : Meets step ok (cs ++ cs') w) : Meets step ok cs w := by
  induction cs generalizing w with
  | nil => trivial
  | cons c cs ih => exact ⟨meets.1, fun w' here => ih (meets.2 w' here)⟩

theorem Meets.append {cs cs' : List C} {w : W} (front : Meets step ok cs w)
    (rest : ∀ w', runAll step cs w = .ok w' → Meets step ok cs' w') : Meets step ok (cs ++ cs') w := by
  induction cs generalizing w with
  | nil => exact rest w rfl
  | cons c cs ih =>
    refine ⟨front.1, fun w₁ here => ih (front.2 w₁ here) fun w' run => rest w' ?_⟩
    rw [runAll, here, ok_bind, run]

theorem Meets.and {ok' : C → W → Prop} {cs : List C} {w : W} (first : Meets step ok cs w) (second : Meets step ok' cs w) :
    Meets step (fun c w => ok c w ∧ ok' c w) cs w := by
  induction cs generalizing w with
  | nil => trivial
  | cons c cs ih => exact ⟨⟨first.1, second.1⟩, fun w' here => ih (first.2 w' here) (second.2 w' here)⟩

/-- A condition on calls alone. -/
theorem Meets.of_forall {fits : C → Prop} {cs : List C} {w : W} (each : ∀ c ∈ cs, fits c) :
    Meets step (fun c _ => fits c) cs w := by
  induction cs generalizing w with
  | nil => trivial
  | cons c cs ih =>
    exact ⟨each c (List.mem_cons_self ..), fun w' _ => ih fun c' member => each c' (List.mem_cons_of_mem _ member)⟩

/-- What follows from a condition while an invariant holds is met by the runs that meet the condition. -/
theorem Meets.imp {ok' : C → W → Prop} (Inv : W → Prop) (each : ∀ c w, Inv w → ok c w → ok' c w)
    (kept : ∀ c w w', Inv w → ok c w → step c w = .ok w' → Inv w') {cs : List C} {w : W} (start : Inv w)
    (meets : Meets step ok cs w) : Meets step ok' cs w := by
  induction cs generalizing w with
  | nil => trivial
  | cons c cs ih => exact ⟨each c w start meets.1, fun w' here => ih (kept c w w' start meets.1 here) (meets.2 w' here)⟩

/-- Two conditions that agree as long as an invariant holds, which the second one keeps, are met by the same runs. -/
theorem meets_iff {ok' : C → W → Prop} {cs : List C} {w : W} (Inv : W → Prop)
    (each : ∀ c ∈ cs, ∀ w, Inv w → (ok c w ↔ ok' c w))
    (kept : ∀ c ∈ cs, ∀ w w', Inv w → ok' c w → step c w = .ok w' → Inv w') (start : Inv w) :
    Meets step ok cs w ↔ Meets step ok' cs w := by
  induction cs generalizing w with
  | nil => exact Iff.rfl
  | cons c cs ih =>
    have first := each c (List.mem_cons_self ..) w start
    have rest : ok' c w → ∀ w', step c w = .ok w' → (Meets step ok cs w' ↔ Meets step ok' cs w') := fun here w' next =>
      ih (fun c' m => each c' (List.mem_cons_of_mem _ m)) (fun c' m => kept c' (List.mem_cons_of_mem _ m))
        (kept c (List.mem_cons_self ..) w w' start here next)
    constructor
    · intro ⟨here, later⟩
      exact ⟨first.mp here, fun w' next => (rest (first.mp here) w' next).mp (later w' next)⟩
    · intro ⟨here, later⟩
      exact ⟨first.mpr here, fun w' next => (rest here w' next).mpr (later w' next)⟩

/-! ### Coming to an end -/

/-- A machine that can go on as long as it is not done, and that has less left after each step, gets done. -/
theorem exists_run {Done : W → Prop} (left : W → Nat)
    (next : ∀ w, Inv w → Done w ∨ ∃ c w', ok c w ∧ step c w = .ok w' ∧ Inv w' ∧ left w' < left w) {w : W} (start : Inv w) :
    ∃ cs w', Meets step ok cs w ∧ runAll step cs w = .ok w' ∧ Done w' := by
  induction rest : left w using Nat.strongRecOn generalizing w with
  | ind n ih =>
    rcases next w start with done | ⟨c, w₁, here, run, inv, less⟩
    · exact ⟨[], w, trivial, rfl, done⟩
    · obtain ⟨cs, w', meets, runs, done⟩ := ih (left w₁) (rest ▸ less) inv rfl
      refine ⟨c :: cs, w', ⟨here, fun w₂ same => ?_⟩, by rw [runAll, run, ok_bind, runs], done⟩
      obtain rfl := Except.ok.inj (run.symm.trans same)
      exact meets

/-- What all parties have left, when one of them moves. -/
theorem sum_update {ι β : Type} [Fintype ι] [DecidableEq ι] (F : ι → β → Nat) (f : ι → β) (i : ι) (b : β) :
    ∑ j, F j (Function.update f i b j) + F i (f i) = ∑ j, F j (f j) + F i b := by
  have others : ∑ j ∈ Finset.univ.erase i, F j (Function.update f i b j) = ∑ j ∈ Finset.univ.erase i, F j (f j) :=
    Finset.sum_congr rfl fun j member => by rw [Function.update_of_ne (Finset.ne_of_mem_erase member)]
  rw [← Finset.add_sum_erase _ _ (Finset.mem_univ i), ← Finset.add_sum_erase _ (fun j => F j (f j)) (Finset.mem_univ i),
    others, Function.update_self]
  omega

/-! ### Answers -/

variable {A V : Type}

def answers (step : C → W → Outcome (List A × W)) : List C → W → Outcome (List A)
  | [], _ => .ok []
  | c :: cs, w => do
    let (here, w) ← step c w
    .ok (here ++ (← answers step cs w))

/-- The state after a call, without what the call answers. -/
def stateAfter (step : C → W → Outcome (List A × W)) (c : C) (w : W) : Outcome W := do .ok (← step c w).2

/-- A machine that can do each call of another one with the same answer can do all its runs. -/
theorem answers_simulate {step : C → W → Outcome (List A × W)} {step' : C → V → Outcome (List A × V)} (R : W → V → Prop)
    {ok : C → V → Prop} (sim : ∀ c w v, R w v → ok c v → ∃ a w' v', step c w = .ok (a, w') ∧ step' c v = .ok (a, v') ∧ R w' v')
    {cs : List C} {w : W} {v : V} (start : R w v) (meets : Meets (stateAfter step') ok cs v) :
    ∃ as, answers step cs w = .ok as ∧ answers step' cs v = .ok as := by
  induction cs generalizing w v with
  | nil => exact ⟨[], rfl, rfl⟩
  | cons c cs ih =>
    obtain ⟨a, w', v', run, run', related⟩ := sim c w v start meets.1
    obtain ⟨as, rest, rest'⟩ := ih related (meets.2 v' (by rw [stateAfter, run']; rfl))
    refine ⟨a ++ as, ?_, ?_⟩
    · rw [answers, run, ok_bind]
      dsimp only
      rw [rest, ok_bind]
    · rw [answers, run', ok_bind]
      dsimp only
      rw [rest', ok_bind]

theorem answers_last {step : C → W → Outcome (List A × W)} {cs : List C} {c : C} {w : W} {as : List A}
    (run : answers step (cs ++ [c]) w = .ok as) : ∃ front a w₁ w', step c w₁ = .ok (a, w') ∧ as = front ++ a := by
  induction cs generalizing w as with
  | nil =>
    obtain ⟨⟨a, w'⟩, here, rest⟩ := bind_ok run
    refine ⟨[], a, w, w', here, ?_⟩
    obtain rfl := Except.ok.inj rest
    exact List.append_nil a
  | cons c' cs ih =>
    obtain ⟨⟨a, w'⟩, here, rest⟩ := bind_ok run
    obtain ⟨as', later, same⟩ := bind_ok rest
    obtain ⟨front, b, w₁, w₂, last, rfl⟩ := ih later
    refine ⟨a ++ front, b, w₁, w₂, last, ?_⟩
    rw [List.append_assoc]
    exact (Except.ok.inj same).symm

/-- A machine whose states are images of another one's states, and that takes every call as the other one does,
gives the same answers, also where a run has none. -/
theorem answers_image {step : C → W → Outcome (List A × W)} {step' : C → V → Outcome (List A × V)} (f : W → V) (Inv : W → Prop)
    {fits : C → Prop} (same : ∀ c w, Inv w → fits c → step' c (f w) = (step c w >>= fun p => .ok (p.1, f p.2)))
    (kept : ∀ c w a w', Inv w → fits c → step c w = .ok (a, w') → Inv w') {cs : List C} {w : W} (start : Inv w)
    (each : ∀ c ∈ cs, fits c) : answers step' cs (f w) = answers step cs w := by
  induction cs generalizing w with
  | nil => rfl
  | cons c cs ih =>
    have here := each c (List.mem_cons_self ..)
    rw [answers, answers, same c w start here]
    cases run : step c w with
    | error e => rfl
    | ok p =>
      rw [ok_bind, ok_bind, ok_bind]
      dsimp only
      rw [ih (kept c w p.1 p.2 start here run) fun c' member => each c' (List.mem_cons_of_mem _ member)]

/-! ### References -/

/-- What a reference answers to each call, from its state `v` on. -/
def predict (reply : C → V → A × V) : List C → V → List A
  | [], _ => []
  | c :: cs, v => (reply c v).1 :: predict reply cs (reply c v).2

/-- The machine takes a call, and so does the reference. -/
def alongside (step : C → W → Outcome (List A × W)) (reply : C → V → A × V) (c : C) (w : W × V) : Outcome (W × V) := do
  .ok ((← step c w.1).2, (reply c w.2).2)

/-- A machine that answers each call as its reference does answers every run so, and stays related to it. -/
theorem answers_predicted {step : C → W → Outcome (List A × W)} {reply : C → V → A × V} (R : W → V → Prop) {ok : C → W × V → Prop}
    (sim : ∀ c w v, R w v → ok c (w, v) → ∃ w', step c w = .ok ([(reply c v).1], w') ∧ R w' (reply c v).2)
    {cs : List C} {w : W} {v : V} (start : R w v) (meets : Meets (alongside step reply) ok cs (w, v)) :
    answers step cs w = .ok (predict reply cs v) ∧
      ∃ w' v', runAll (alongside step reply) cs (w, v) = .ok (w', v') ∧ R w' v' := by
  induction cs generalizing w v with
  | nil => exact ⟨rfl, w, v, rfl, start⟩
  | cons c cs ih =>
    obtain ⟨w₁, run, related⟩ := sim c w v start meets.1
    have both : alongside step reply c (w, v) = .ok (w₁, (reply c v).2) := by
      rw [alongside, run, ok_bind]
    obtain ⟨rest, w', v', runs, related'⟩ := ih related (meets.2 _ both)
    refine ⟨?_, w', v', by rw [runAll, both, ok_bind, runs], related'⟩
    rw [answers, run, ok_bind]
    dsimp only
    rw [rest, ok_bind]
    rfl

end StorageStack.Lib
