import TimedAutomata.Grammar.Lexeme
import TimedAutomata.Text.Blank
import TimedAutomata.Text.Lines
import TimedAutomata.Topology.Basic

/-!
# Recovering channels

The channels of a generated program can be read back from the notes above their declarations:
lines of the form `// A -> B : x`.
-/

namespace TimedAutomata
namespace Generation

open Grammar

/-- The route in a note. -/
def note? (cs : List Char) : Option Route := do
  let cs ← literal? ['/', '/'] cs
  let (sender, cs) ← word? (skipSpaces cs)
  let cs ← literal? ['-', '>'] (skipSpaces cs)
  let (receiver, cs) ← word? (skipSpaces cs)
  let cs ← literal? [':'] (skipSpaces cs)
  let (payload, cs) ← word? (skipSpaces cs)
  if (skipSpaces cs).isEmpty then
    some ⟨String.ofList sender, String.ofList receiver, String.ofList payload⟩
  else none

/-- The routes in the notes of a text, in order. -/
def recover (text : String) : List Route :=
  (Text.lines text.toList).filterMap fun line => note? (Text.trim line)

end Generation
end TimedAutomata
