import RouteScribe.Document.Json
import RouteScribe.Document.Pen

/-!
# RouteScribe.Document.Yaml

Documents as YAML, in block style. Lists and tables without items are written in brackets. A list
that is the value of a key stands in the column of the key.
-/

namespace RouteScribe
namespace Document
namespace Yaml

/-- The key fits on a line with its value. -/
def isShortKey (key : String) : Bool := !key.toList.any isBreak && key.utf8ByteSize ≤ 128

mutual

/-- Writes a node into a part of the document with indentation `indent`; `inTable` if it is the
value of a key. -/
def write (indent : Nat) (inTable : Bool) (p : Pen) : Node → Pen
  | .text s => p.text indent s
  | .list [] => p.word ['[', ']']
  | .list (n :: ns) =>
    writeItems (if inTable && !p.fresh then indent else indent + 2) p (n :: ns)
  | .table [] => p.word ['\x7b', '\x7d']
  | .table (r :: rs) => writeRows (indent + 2) p (r :: rs)

def writeItems (indent : Nat) (p : Pen) : List Node → Pen
  | [] => p
  | n :: ns => writeItems indent (write indent false ((p.align indent).mark '-') n) ns

def writeRows (indent : Nat) (p : Pen) : List (String × Node) → Pen
  | [] => p
  | (key, n) :: rows =>
    let p := p.align indent
    let p :=
      if isShortKey key then (p.text indent key).colon
      else (((p.mark '?').text indent key).align indent).mark ':'
    writeRows indent (write indent true p n) rows

end

/-- Writes a whole document; its outermost items are not indented. -/
def writeRoot (p : Pen) : Node → Pen
  | .text s => p.text 0 s
  | .list [] => p.word ['[', ']']
  | .list ns => writeItems 0 p ns
  | .table [] => p.word ['\x7b', '\x7d']
  | .table rows => writeRows 0 p rows

def print (n : Node) : String := ((writeRoot .start n).align 0).written

end Yaml

/-- The text of a document in a format, by way of a printer for YAML. -/
def Node.printBy (yaml : Node → String) (f : Format) (n : Node) : String :=
  match f with
  | .yaml => yaml n
  | .json => Json.print n

def Node.print (f : Format) (n : Node) : String := n.printBy Yaml.print f

end Document
end RouteScribe
