import FormLetter.Tree.Basic

/-!
# XML documents

A document is a tree, with what its declaration says if it has one.
-/

namespace FormLetter.Xml

structure Declaration where
  version : String
  encoding : Option String
  standalone : Option String
  deriving DecidableEq, Repr

structure Document where
  declaration : Option Declaration
  root : Node
  deriving Repr, Inhabited

/-- Why a text is not an XML document. -/
inductive XmlError where
  /-- The text ends inside of a piece of markup, or before what it has to end with. -/
  | unterminated (construct : String)
  /-- An exclamation mark starts neither a comment, nor character data, nor a document type. -/
  | unknownMarkup (c : Char)
  | mismatchedEnd (expected found : String)
  | emptyDoctype
  | declarationWithoutVersion
  /-- An attribute has no quoted value, or a name that is taken. -/
  | malformedAttribute
  /-- A reference is not closed or stands for no character. -/
  | malformedReference
  | unexpectedClosing
  | multipleRoots
  | unclosedElement
  | noRoot
  deriving DecidableEq, Repr

/-- Whether the document has the wrong structure, rather than wrong markup. -/
def XmlError.isStructural : XmlError → Bool
  | .unexpectedClosing | .multipleRoots | .unclosedElement | .noRoot => true
  | _ => false

def XmlError.message : XmlError → String
  | .unterminated construct => "Unexpected EOF during reading " ++ construct
  | .unknownMarkup c =>
    "Only Comment (\x60--\x60), CDATA (\x60[CDATA[\x60) and DOCTYPE (\x60DOCTYPE\x60) nodes can " ++
      "start with a '!', but symbol \x60" ++ c.toString ++ "\x60 found"
  | .mismatchedEnd expected found => "Expecting </" ++ expected ++ "> found </" ++ found ++ ">"
  | .emptyDoctype => "DOCTYPE declaration must not be empty"
  | .declarationWithoutVersion => "XmlDecl must start with 'version' attribute"
  | .malformedAttribute => "error while parsing attribute"
  | .malformedReference => "malformed reference"
  | .unexpectedClosing => "unexpected closing tag"
  | .multipleRoots => "multiple root elements"
  | .unclosedElement => "unclosed element"
  | .noRoot => "no root element"

end FormLetter.Xml
