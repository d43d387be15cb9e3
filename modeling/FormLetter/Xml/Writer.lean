import FormLetter.Xml.Basic
import FormLetter.Xml.Escape

/-!
# Writing XML

Elements without children are written as empty elements, and what means something in markup is
escaped in texts and values. The declaration stands on a line of its own.
-/

namespace FormLetter.Xml

def writeAttribute : String × String → List Char
  | (name, value) => ' ' :: name.toList ++ "=\"".toList ++ escape value.toList ++ ['"']

mutual

def writeNode : Node → List Char
  | .text s => escape s.toList
  | .element name attributes children =>
    let tag := name.toList ++ attributes.flatMap writeAttribute
    match children with
    | [] => '<' :: tag ++ "/>".toList
    | child :: others =>
      '<' :: tag ++ '>' :: writeNode child ++ writeNodes others ++
        "</".toList ++ name.toList ++ ['>']

def writeNodes : List Node → List Char
  | [] => []
  | n :: ns => writeNode n ++ writeNodes ns

end

def writeDeclared (name : String) (value : String) : List Char :=
  ' ' :: name.toList ++ "=\"".toList ++ value.toList ++ ['"']

def Declaration.write (d : Declaration) : List Char :=
  "<?xml".toList ++ writeDeclared "version" d.version ++
    (d.encoding.map (writeDeclared "encoding")).getD [] ++
    (d.standalone.map (writeDeclared "standalone")).getD [] ++ "?>\r\n".toList

def Document.write (d : Document) : String :=
  String.ofList ((d.declaration.map Declaration.write).getD [] ++ writeNode d.root)

end FormLetter.Xml
