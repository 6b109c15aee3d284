import TimedAutomata.Yaml.Document

/-!
# Decoding documents

Reading typed values from the nodes of a document. An alias is read as the node that it stands
for. Since aliases may be nested, a short document can stand for a very long one, so they are
counted.

- `Decode`: a value read from a document
- `follow`: the node behind an alias
- `Decode.run?`: a value read from a whole document
-/

namespace TimedAutomata
namespace Yaml

/-- Decoding knows the document, counts the aliases that it follows, and may fail. -/
abbrev Decode := ReaderT Document (StateT Nat Option)

namespace Decode

def refuse {α : Type} : Decode α := fun _ _ => none

/-- The value that was found, if there is one. -/
def ofOption {α : Type} : Option α → Decode α
  | some a => pure a
  | none => refuse

/-- How many aliases may be followed for each piece of the document. -/
def aliasesEach : Nat := 100

/-- The node itself or, for an alias, the node that it stands for. -/
def follow : Node → Decode Node
  | .alias anchor => do
    let d ← read
    let followed ← get
    if followed < aliasesEach * d.root.size then
      set (followed + 1)
      ofOption (d.target? anchor)
    else refuse
  | n => return n

/-- A value that depends on one node only. -/
def single {α : Type} (read? : Node → Option α) (n : Node) : Decode α := do
  ofOption (read? (← follow n))

/-- What is decoded from the root of a document. -/
def run? {α : Type} (decode : Node → Decode α) (d : Document) : Option α :=
  ((decode d.root).run d).run' 0

end Decode
end Yaml
end TimedAutomata
