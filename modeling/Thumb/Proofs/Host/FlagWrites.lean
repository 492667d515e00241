import Thumb.Proofs.Host.NamedAccess

/-! Writes to the flags, one by one and together. Each flag shows what was last written to it, so that
the four flags of an operation can be set in any order or at once; and writing flags changes neither
the other flags nor any register. -/
namespace Thumb

variable {s : Shape}

/-- What a number written to a location gives a flag, if the location shows the flags. -/
def Location.gives? (flag : Flag) (n : ℕ) : Location s → Option Bool
  | .flags => some ((Flags.ofWord (s.word n)).get flag)
  | _ => none

namespace Edit

/-- What a change writes to a flag, if it writes to it. -/
def written? (flag : Flag) : Edit s → Option Bool
  | .location l n => l.gives? flag n
  | .named name n => (Location.ofName s name).toOption.bind (Location.gives? flag n)
  | .flag other b => if other = flag then some b else none
  | .flags values => some (values.get flag)
  | .negative r => if flag = .n then some (s.isNegative r) else none
  | .zero r => if flag = .z then some (s.word r == 0) else none
  | .carry op a b => if flag = .c then some (op.carry (s.word a) (s.word b)) else none
  | .overflow op a b r =>
    if flag = .v then some (op.overflow (s.word a) (s.word b) (s.word r)) else none
  | .result r =>
    match flag with
    | .n => some (s.isNegative r)
    | .z => some (s.word r == 0)
    | .c | .v => none
  | .arith op a b r => some ((Flags.ofArith op (s.word a) (s.word b) (s.word r)).get flag)

def WritesFlag (e : Edit s) : Prop := ∃ flag value, e.written? flag = some value

def lastWritten? (flag : Flag) (edits : List (Edit s)) : Option Bool :=
  edits.reverse.findSome? (written? flag)

theorem lastWritten?_concat (flag : Flag) (edits : List (Edit s)) (e : Edit s) :
    lastWritten? flag (edits ++ [e]) = (e.written? flag).or (lastWritten? flag edits) := by
  rw [lastWritten?, List.reverse_concat, List.findSome?_cons]
  cases e.written? flag <;> rfl

/-- The change of a single flag that belongs to an operation. -/
def ofOperation (op : Arith) (a b result : ℕ) : Flag → Edit s
  | .n => .negative result
  | .z => .zero result
  | .c => .carry op a b
  | .v => .overflow op a b result

section Operation

variable {op : Arith} {a b result : ℕ} {flag : Flag}

theorem written?_ofOperation (other : Flag) :
    (ofOperation op a b result other : Edit s).written? flag =
      if other = flag then
        some ((Flags.ofArith op (s.word a) (s.word b) (s.word result)).get flag)
      else none := by
  cases other <;> cases flag <;> rfl

/-- In any order that has all flags, each is written what belongs to the operation. -/
theorem lastWritten?_ofOperation {order : List Flag} (h : flag ∈ order) :
    lastWritten? flag (order.map (ofOperation op a b result) : List (Edit s)) =
      some ((Flags.ofArith op (s.word a) (s.word b) (s.word result)).get flag) := by
  have hsome :
      (lastWritten? flag (order.map (ofOperation op a b result) : List (Edit s))).isSome := by
    rw [lastWritten?, List.findSome?_isSome_iff]
    refine ⟨ofOperation op a b result flag, by simpa using ⟨flag, h, rfl⟩, ?_⟩
    rw [written?_ofOperation, if_pos rfl]
    rfl
  obtain ⟨value, hvalue⟩ := Option.isSome_iff_exists.mp hsome
  obtain ⟨e, he, hwritten⟩ := List.exists_of_findSome?_eq_some hvalue
  obtain ⟨other, -, rfl⟩ : ∃ other ∈ order, ofOperation op a b result other = e := by
    simpa using he
  rw [written?_ofOperation] at hwritten
  split at hwritten
  · rw [hvalue, hwritten]
  · cases hwritten

theorem writesFlag_ofOperation (flag : Flag) :
    (ofOperation op a b result flag : Edit s).WritesFlag :=
  ⟨flag, _, (written?_ofOperation flag).trans (if_pos rfl)⟩

end Operation

end Edit

namespace RegisterFile

variable (f : RegisterFile s)

theorem flag_write (l : Location s) (n : ℕ) (flag : Flag) :
    (f.write l n).flag flag = (l.gives? flag n).getD (f.flag flag) := by
  cases l <;> rfl

theorem flag_edit (e : Edit s) (flag : Flag) :
    (f.edit e).flag flag = (e.written? flag).getD (f.flag flag) := by
  cases e with
  | location l n => exact flag_write f l n flag
  | named name n =>
    rw [edit, writeNamed, Edit.written?]
    cases Location.ofName s name with
    | error e => rfl
    | ok l => exact flag_write f l n flag
  | flag other b => cases flag <;> cases other <;> rfl
  | negative | zero | carry | overflow | result => cases flag <;> rfl
  | flags | arith => rfl

/-- Whatever is changed one after the other, a flag is what was written to it last. -/
theorem flag_foldl_edit (edits : List (Edit s)) (flag : Flag) :
    (edits.foldl edit f).flag flag = (Edit.lastWritten? flag edits).getD (f.flag flag) := by
  induction edits using List.reverseRecOn with
  | nil => rfl
  | append_singleton edits e ih =>
    rw [List.foldl_append, Edit.lastWritten?_concat]
    refine (flag_edit _ e flag).trans ?_
    rw [ih]
    cases e.written? flag <;> rfl

theorem write_eq_setFlags {l : Location s} {n : ℕ} {flag : Flag} {value : Bool}
    (h : l.gives? flag n = some value) : f.write l n = f.setFlags (f.write l n).flags := by
  cases l with
  | flags => rfl
  | _ => cases h

theorem edit_eq_setFlags {e : Edit s} (h : e.WritesFlag) :
    f.edit e = f.setFlags (f.edit e).flags := by
  obtain ⟨flag, value, h⟩ := h
  cases e with
  | location l n => exact write_eq_setFlags f h
  | named name n =>
    rw [Edit.written?] at h
    rw [edit, writeNamed]
    cases hl : Location.ofName s name with
    | error e => rfl
    | ok l =>
      rw [hl] at h
      exact write_eq_setFlags f h
  | _ => rfl

theorem foldl_edit_eq_setFlags {edits : List (Edit s)} (h : ∀ e ∈ edits, e.WritesFlag) :
    edits.foldl edit f = f.setFlags (edits.foldl edit f).flags := by
  induction edits generalizing f with
  | nil => rfl
  | cons e edits ih =>
    obtain ⟨hfirst, hrest⟩ := List.forall_mem_cons.mp h
    rw [List.foldl_cons, ih _ hrest, edit_eq_setFlags f hfirst]
    rfl

/-- The flags of an operation are the same set one by one, in any order, as at once. -/
theorem foldl_edit_ofOperation {order : List Flag} (h : ∀ flag, flag ∈ order) (op : Arith)
    (a b result : ℕ) :
    (order.map (Edit.ofOperation op a b result)).foldl edit f = f.setNZCV op a b result := by
  have hall : ∀ e ∈ order.map (Edit.ofOperation op a b result : Flag → Edit s), e.WritesFlag := by
    intro e he
    obtain ⟨flag, -, rfl⟩ := List.mem_map.mp he
    exact Edit.writesFlag_ofOperation flag
  rw [foldl_edit_eq_setFlags f hall, setNZCV]
  congr 1
  ext flag
  rw [← RegisterFile.flag, flag_foldl_edit, Edit.lastWritten?_ofOperation (h flag)]
  rfl

end RegisterFile

namespace Host

/-- Sets one of the flags that an operation on two words sets, whose result is taken to be the given
one. -/
def Bank.setFrom? (op : Arith) (x y result : Word) (b : Bank) : Flag → Option Bank
  | .n => b.setN? result
  | .z => b.setZ? result
  | .c => b.setC? op x y
  | .v => b.setV? op x y result

theorem setFrom?_eq (op : Arith) (x y result : Word) (b : Bank) (flag : Flag) :
    b.setFrom? op x y result flag =
      b.edit? (Edit.ofOperation op x.toNat y.toNat result.toNat flag : Edit s) := by
  cases flag <;> simp [Bank.setFrom?, Edit.ofOperation, Bank.edit?]

/-- The flags of an operation are set at once as they are one by one, in any order that leaves none
out; a single flag is set without a change to anything else; and whatever is changed one after the
other, a flag shows what was last written to it, and writes to flags alone change no register. -/
structure Bank.FlagsAgree (s : Shape) (b : Bank) : Prop where
  together : ∀ op x y result, ∃ b', b.setNZCV? op x y result = some b' ∧
    ∀ order : List Flag, (∀ flag, flag ∈ order) →
      order.foldlM (Bank.setFrom? op x y result) b = some b'
  single : ∀ flag value, ∃ b', b.setFlag? flag value = some b' ∧
    b'.isSet? flag = some value ∧ (∀ other, other ≠ flag → b'.isSet? other = b.isSet? other) ∧
    b' = { b with status := b'.status }
  last : ∀ edits : List (Edit s), ∃ b', edits.foldlM Bank.edit? b = some b' ∧
    (∀ flag, ∃ before, b.isSet? flag = some before ∧
      b'.isSet? flag = some ((Edit.lastWritten? flag edits).getD before)) ∧
    ((∀ e ∈ edits, e.WritesFlag) → b' = { b with status := b'.status })

theorem foldlM_setFrom?_pack (f : RegisterFile s) (op : Arith) (x y result : Word)
    (order : List Flag) :
    order.foldlM (Bank.setFrom? op x y result) (pack f) =
      some (pack ((order.map (Edit.ofOperation op x.toNat y.toNat result.toNat)).foldl
        RegisterFile.edit f)) := by
  rw [← foldlM_edit?_pack, List.foldlM_map]
  congr 1
  funext b flag
  exact setFrom?_eq op x y result b flag

theorem flagsAgree_pack (f : RegisterFile s) : (pack f).FlagsAgree s where
  together := by
    intro op x y result
    have hset : (pack f).setNZCV? op x y result =
        some (pack (f.setNZCV op x.toNat y.toNat result.toNat)) := by
      simp [RegisterFile.setNZCV, word_toNat_eq]
    refine ⟨_, hset, ?_⟩
    intro order horder
    rw [foldlM_setFrom?_pack, RegisterFile.foldl_edit_ofOperation f horder]
  single := by
    intro flag value
    refine ⟨_, setFlag?_pack f flag value, ?_, ?_, rfl⟩
    · rw [isSet?_pack]
      exact congrArg some (Flags.get_set_self f.flags flag value)
    · intro other hother
      rw [isSet?_pack, isSet?_pack]
      exact congrArg some (Flags.get_set_of_ne hother f.flags value)
  last := by
    intro edits
    refine ⟨_, foldlM_edit?_pack edits f, ?_, ?_⟩
    · intro flag
      refine ⟨f.flag flag, isSet?_pack f flag, ?_⟩
      rw [← RegisterFile.flag_foldl_edit]
      exact isSet?_pack _ flag
    · intro hall
      rw [RegisterFile.foldl_edit_eq_setFlags f hall]
      rfl

/-- Whatever has been done to a new machine, its setters of flags agree. -/
theorem flag_writes_agree {c : Config} (hc : c.shape = .ok s) (calls : List (Call s)) :
    ∃ h, (State.new c).afterAll calls = some h ∧ h.bank.FlagsAgree s := by
  rw [new_eq_embed hc, afterAll_embed]
  exact ⟨_, rfl, flagsAgree_pack _⟩

/-- `Z` and `C` are written alone, then all flags by name, then `Z` again. -/
def rewritten : List (Edit (.architectural .w16)) :=
  [.flag .z true, .carry .sub 2 3, .named " apsr" 0x17000, .zero 1]

theorem flag_writes_agree_rewritten :
    Config.shape { bitWidth := 16 } = .ok (.architectural .w16) ∧ ∃ h : State,
      (State.new { bitWidth := 16 }).afterAll overfull = some h ∧
      (∃ b, h.bank.setNZCV? .sub 0x18000 1 0x7fff = some b ∧
        [Flag.v, .n, .c, .z].foldlM (Bank.setFrom? .sub 0x18000 1 0x7fff) h.bank = some b) ∧
      ∃ b, rewritten.foldlM Bank.edit? h.bank = some b ∧ b.isSet? .z = some false ∧
        b.isSet? .c = some true ∧ b = { h.bank with status := b.status } := by
  have hc : Config.shape { bitWidth := 16 } = .ok (.architectural .w16) := rfl
  obtain ⟨h, hafter, hagree⟩ := flag_writes_agree hc overfull
  obtain ⟨b, htogether, horder⟩ := hagree.together .sub 0x18000 1 0x7fff
  obtain ⟨b', hb', hflags, hrest⟩ := hagree.last rewritten
  have hz : Edit.lastWritten? .z rewritten = some false := by decide +kernel
  have hc' : Edit.lastWritten? .c rewritten = some true := by decide +kernel
  refine ⟨hc, h, hafter, ⟨b, htogether, horder _ (by intro flag; cases flag <;> decide)⟩,
    b', hb', ?_, ?_, hrest ?_⟩
  · obtain ⟨before, -, hread⟩ := hflags .z
    rw [hread, hz]
    rfl
  · obtain ⟨before, -, hread⟩ := hflags .c
    rw [hread, hc']
    rfl
  · have hnamed : (Edit.named " apsr" 0x17000 : Edit (.architectural .w16)).written? .n =
        some false := by decide +kernel
    intro e he
    simp only [rewritten, List.mem_cons, List.not_mem_nil, or_false] at he
    obtain rfl | rfl | rfl | rfl := he
    · exact ⟨.z, true, rfl⟩
    · exact ⟨.c, _, rfl⟩
    · exact ⟨.n, false, hnamed⟩
    · exact ⟨.z, _, rfl⟩

end Host
end Thumb
