import Thumb.Machine

/-! Histories: the calls that can be made on a machine, in any order and with any arguments, and the
machines that they lead to from a new one. A call that is refused leaves the machine as it was, but
for a run, which leaves the machine that the failing instruction found. -/
namespace Thumb

/-- A change to the register file, by location, by name, or to the flags. -/
inductive Edit (s : Shape)
  | location (l : Location s) (n : Nat)
  | named (name : String) (n : Nat)
  | flag (flag : Flag) (b : Bool)
  | flags (flags : Flags)
  | negative (result : Nat)
  | zero (result : Nat)
  | carry (op : Arith) (a b : Nat)
  | overflow (op : Arith) (a b result : Nat)
  | result (result : Nat)
  | arith (op : Arith) (a b result : Nat)

def RegisterFile.edit {s : Shape} (f : RegisterFile s) : Edit s → RegisterFile s
  | .location l n => f.write l n
  | .named name n => (f.writeNamed name n).toOption.getD f
  | .flag flag b => f.setFlag flag b
  | .flags flags => f.setFlags flags
  | .negative result => f.setN result
  | .zero result => f.setZ result
  | .carry op a b => f.setC op a b
  | .overflow op a b result => f.setV op a b result
  | .result result => f.setNZ result
  | .arith op a b result => f.setNZCV op a b result

inductive Call (s : Shape)
  | assemble (line : String)
  | step
  /-- A run that ends within the given number of fetches. -/
  | run (fuel : Nat)
  | execute (i : Instruction)
  | edit (e : Edit s)

def Call.line? {s : Shape} : Call s → Option String
  | .assemble line => some line
  | _ => none

namespace Machine

variable {s : Shape}

/-- The machine that a run leaves, if the run has ended. -/
def Run.final? : Run s → Option (Machine s)
  | .halted m | .failed m _ => some m
  | .exhausted _ => none

/-- The machine that a call leaves. A run that has not ended has not returned and counts for
nothing. -/
def after (m : Machine s) : Call s → Machine s
  | .assemble line => (m.assemble line).toOption.getD m
  | .step => m.step.toOption.join.getD m
  | .run fuel => (m.run fuel).final?.getD m
  | .execute i => (m.execute i).toOption.getD m
  | .edit e => { m with registers := m.registers.edit e }

def afterAll (m : Machine s) (calls : List (Call s)) : Machine s := calls.foldl after m

/-- The machines that calls lead to from a new one. -/
inductive Reachable : Machine s → Prop
  | new : Reachable (Machine.new s)
  | after {m : Machine s} (h : Reachable m) (call : Call s) : Reachable (m.after call)

@[simp] theorem afterAll_nil (m : Machine s) : m.afterAll [] = m := rfl

@[simp] theorem afterAll_cons (m : Machine s) (call : Call s) (calls : List (Call s)) :
    m.afterAll (call :: calls) = (m.after call).afterAll calls := rfl

theorem Reachable.afterAll {m : Machine s} (h : Reachable m) (calls : List (Call s)) :
    Reachable (m.afterAll calls) := by
  induction calls generalizing m with
  | nil => exact h
  | cons call calls ih => exact ih (h.after call)

/-- What every call keeps holds after any sequence of calls. -/
theorem afterAll_induction {P : Machine s → Prop} (keep : ∀ m call, P m → P (m.after call))
    {m : Machine s} (h : P m) (calls : List (Call s)) : P (m.afterAll calls) := by
  induction calls generalizing m with
  | nil => exact h
  | cons call calls ih => exact ih (keep m call h)

theorem index?_of_target {m : Machine s} {i : Instruction} {target : Nat}
    (h : m.target i = .ok target) {label : String} (hl : i.label? = some label) :
    m.program.index? label = some target := by
  simp only [Machine.target, hl] at h
  cases hi : m.program.index? label with
  | none => simp only [hi] at h; cases h
  | some index => simp only [hi] at h; cases h; rfl

theorem target_eq_error_iff {m : Machine s} {i : Instruction} {e : Error} :
    m.target i = .error e ↔
      ∃ label, (i.label? = some label ∧ m.program.index? label = none) ∧
        e = .validation (.labelUndefined label) := by
  unfold target
  cases hl : i.label? with
  | none => simp
  | some label =>
    dsimp only
    constructor
    · cases hi : m.program.index? label with
      | some index => exact nofun
      | none =>
        rintro ⟨⟩
        exact ⟨label, ⟨rfl, hi⟩, rfl⟩
    · rintro ⟨label', ⟨hlabel, hi⟩, rfl⟩
      cases hlabel
      simp only [hi]

/-- An executed instruction changes registers only. -/
theorem eq_of_execute {m m' : Machine s} {i : Instruction} (h : m.execute i = .ok m') :
    ∃ target, m.target i = .ok target ∧
      m' = { m with registers := m.registers.perform target i } := by
  unfold execute at h
  cases ht : m.target i with
  | error e => rw [ht] at h; cases h
  | ok target => rw [ht] at h; cases h; exact ⟨target, rfl, rfl⟩

theorem execute_eq_of_label?_eq_none (m : Machine s) {i : Instruction} (h : i.label? = none) :
    m.execute i = .ok { m with registers := m.registers.perform 0 i } := by
  rw [execute, target, h]
  rfl

/-- A step executes the entry at `PC` and counts it. -/
theorem eq_of_step {m m' : Machine s} (h : m.step = .ok (some m')) :
    ∃ e m₁, m.program.get? m.pc = some e ∧ m.execute e.instruction = .ok m₁ ∧
      m' = { m₁ with executed := m₁.executed + 1 } := by
  unfold step at h
  split at h
  · cases h
  · next e he =>
    cases hx : m.execute e.instruction with
    | error err => rw [hx] at h; cases h
    | ok m₁ => rw [hx] at h; cases h; exact ⟨e, m₁, he, hx, rfl⟩

/-- The step at an entry whose label, if its instruction names one, is found. -/
theorem step_eq_of_target {m : Machine s} {e : Entry} {target : Nat}
    (he : m.program.get? m.pc = some e) (ht : m.target e.instruction = .ok target) :
    m.step = .ok (some { m with
      registers := m.registers.perform target e.instruction, executed := m.executed + 1 }) := by
  rw [step, he]
  dsimp only
  rw [execute, ht]
  rfl

/-- What every step keeps holds of the machine that a run leaves. -/
theorem run_induction {P : Machine s → Prop}
    (keep : ∀ m m', m.step = .ok (some m') → P m → P m') {m m' : Machine s} {fuel : Nat}
    (h : P m) (hr : (m.run fuel).final? = some m') : P m' := by
  induction fuel generalizing m with
  | zero => cases hr
  | succ fuel ih =>
    unfold run at hr
    split at hr
    · cases hr; exact h
    · cases hr; exact h
    · next m₁ hs => exact ih (keep m m₁ hs h) hr

end Machine
end Thumb
