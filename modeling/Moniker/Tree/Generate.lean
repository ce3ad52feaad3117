import Moniker.Draw.Basic
import Moniker.Tree.Basic

/-!
# Names from trees

`Tree.generate` is the computation that makes up one name for a tree:

* a literal is written once, and nothing is picked for it;
* any other node first picks how often it is repeated, from its own range (`Range.draw`), and
  then writes that many characters of its class, that many runs of its children, or that many
  copies of its child, all picked afresh each time.

It fails as soon as it would pick a count from an inverted range, and gives that range as the
reason. An inverted range below something that is repeated zero times is never met.
-/

namespace Moniker

/-- Pick a count from a range. If only one count is possible nothing is picked. -/
def Range.draw (r : Range) : Draw Range Nat :=
  if r.inverted then .fail r
  else if r.isFixed then .done r.min.toNat
  else (Draw.index .w32 r.size).map fun i => r.min.toNat + i

/-- Pick a character of a class. -/
def CharClass.draw (cls : CharClass) : Draw Range Char :=
  let alphabet := cls.alphabet
  (Draw.index .w64 alphabet.length).map fun i => alphabet[i]

namespace Tree

namespace Node

mutual

/-- Write what a node makes up after the text that is there already. -/
def extend : Node → String → Draw Range String
  | literal _ text, written => .done (written ++ text)
  | chars range cls, written =>
    let char := cls.draw
    range.draw.bind fun n => Draw.iterate n (fun text => char.map text.push) written
  | group range children, written =>
    range.draw.bind fun n => Draw.iterate n (extendAll children) written
  | single range child, written =>
    range.draw.bind fun n => Draw.iterate n child.extend written

/-- Write what the nodes make up, one after the other. -/
def extendAll : List Node → String → Draw Range String
  | [], written => .done written
  | n :: nodes, written => (n.extend written).bind (extendAll nodes)

end

@[simp] theorem extend_literal (range : Range) (text written : String) :
    (literal range text).extend written = .done (written ++ text) := rfl

theorem extend_chars (range : Range) (cls : CharClass) (written : String) :
    (chars range cls).extend written =
      range.draw.bind fun n => Draw.iterate n (fun text => cls.draw.map text.push) written := rfl

theorem extend_group (range : Range) (children : List Node) (written : String) :
    (group range children).extend written =
      range.draw.bind fun n => Draw.iterate n (extendAll children) written := rfl

theorem extend_single (range : Range) (child : Node) (written : String) :
    (single range child).extend written =
      range.draw.bind fun n => Draw.iterate n child.extend written := rfl

@[simp] theorem extendAll_nil (written : String) : extendAll [] written = .done written := rfl

@[simp] theorem extendAll_cons (n : Node) (nodes : List Node) (written : String) :
    extendAll (n :: nodes) written = (n.extend written).bind (extendAll nodes) := rfl

end Node

/-- Make up one name. -/
def generate (t : Tree) : Draw Range String := Node.extendAll t.nodes ""

end Tree

end Moniker
