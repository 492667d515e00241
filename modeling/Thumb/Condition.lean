import Thumb.Flags
import Thumb.Text.Case

/-! Branch conditions: their two-letter suffixes and the flags under which each one holds. After a
comparison they are the integer comparisons, unsigned (`cs`, `cc`, `hi`, `ls`) and signed (`ge`,
`lt`, `gt`, `le`). -/
namespace Thumb

inductive Condition
  | eq | ne | cs | cc | mi | pl | vs | vc | hi | ls | ge | lt | gt | le
  /-- No condition at all. -/
  | always
  deriving DecidableEq

namespace Condition

/-- All conditions, in the order of their encodings. -/
def all : List Condition :=
  [eq, ne, cs, cc, mi, pl, vs, vc, hi, ls, ge, lt, gt, le, always]

/-- The suffix written after `B`; `always` has none. -/
def suffix : Condition → String
  | eq => "EQ"
  | ne => "NE"
  | cs => "CS"
  | cc => "CC"
  | mi => "MI"
  | pl => "PL"
  | vs => "VS"
  | vc => "VC"
  | hi => "HI"
  | ls => "LS"
  | ge => "GE"
  | lt => "LT"
  | gt => "GT"
  | le => "LE"
  | always => ""

/-- The suffixes that a branch can be written with, among them the synonyms `HS` and `LO`; here
`always` is spelled `AL`. -/
def spellings : List (String × Condition) :=
  [("EQ", eq), ("NE", ne), ("CS", cs), ("HS", cs), ("CC", cc), ("LO", cc), ("MI", mi), ("PL", pl),
    ("VS", vs), ("VC", vc), ("HI", hi), ("LS", ls), ("GE", ge), ("LT", lt), ("GT", gt), ("LE", le),
    ("AL", always)]

/-- The condition that a suffix spells, in either case. -/
def ofSuffix? (s : String) : Option Condition :=
  (Text.findNamed? Prod.fst spellings s).map Prod.snd

def holds (cond : Condition) (f : Flags) : Bool :=
  match cond with
  | eq => f.z
  | ne => !f.z
  | cs => f.c
  | cc => !f.c
  | mi => f.n
  | pl => !f.n
  | vs => f.v
  | vc => !f.v
  | hi => f.c && !f.z
  | ls => !f.c || f.z
  | ge => f.n == f.v
  | lt => f.n != f.v
  | gt => !f.z && f.n == f.v
  | le => f.z || f.n != f.v
  | always => true

end Condition
end Thumb
