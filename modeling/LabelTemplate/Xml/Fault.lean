/-!
# What can be wrong with a markup text

The causes for which reading a document fails, and their wording.  Offsets
inside a tag are counted in bytes after its `<`; ranges inside a text or an
attribute value are counted in bytes from its start.
-/

namespace LabelTemplate.Xml

inductive AttributeFault where
  | missingEquals (at_ : Nat)
  | missingValue (at_ : Nat)
  | unquotedValue (at_ : Nat)
  | missingQuote (at_ : Nat) (quote : Char)
  | duplicate (at_ first : Nat)
  deriving DecidableEq, Repr

/-- What can be wrong with the number of a character reference. -/
inductive CharRefFault where
  | sign
  | noDigits
  | badDigit
  | tooLarge
  | zero
  | notACharacter (code : Nat)
  deriving DecidableEq, Repr

inductive ReferenceFault where
  | unknownEntity (first past : Nat) (name : String)
  | unterminated (first past : Nat)
  | character (fault : CharRefFault)
  deriving DecidableEq, Repr

inductive ReadFault where
  | unknownMarkup
  | unclosedInstruction
  | unclosedComment
  | unclosedCData
  | unclosedDoctype
  | unclosedTag
  | mismatchedEnd (expected found : String)
  | unmatchedEnd (found : String)
  | missingDoctypeName
  | badAttribute (fault : AttributeFault)
  | badReference (fault : ReferenceFault)
  | unboundPrefix (pfx : String)
  | multipleRoots
  | noRoot
  | unclosedElement
  | other (message : String)
  deriving DecidableEq, Repr

def AttributeFault.message : AttributeFault → String
  | missingEquals p => s!"position {p}: attribute key must be directly followed by `=` or space"
  | missingValue p => s!"position {p}: `=` must be followed by an attribute value"
  | unquotedValue p => s!"position {p}: attribute value must be enclosed in `\"` or `'`"
  | missingQuote p q =>
    s!"position {p}: missing closing quote `" ++ q.toString ++ "` in attribute value"
  | duplicate p first =>
    s!"position {p}: duplicated attribute, previous declaration at position {first}"

def CharRefFault.message : CharRefFault → String
  | sign => "unexpected number sign"
  | noDigits => "cannot parse integer from empty string"
  | badDigit => "invalid digit found in string"
  | tooLarge => "number too large to fit in target type"
  | zero => "0x0 character is not permitted in XML"
  | notACharacter code => s!"`{code}` is not a valid codepoint"

def ReferenceFault.message : ReferenceFault → String
  | unknownEntity a b name => s!"at {a}..{b}: unrecognized entity `{name}`"
  | unterminated a b =>
    s!"Error while escaping character at range {a}..{b}: Cannot find ';' after '&'"
  | character fault => "invalid character reference: " ++ fault.message

def ReadFault.message : ReadFault → String
  | unknownMarkup => "syntax error: unknown or missed symbol in markup"
  | unclosedInstruction =>
    "syntax error: processing instruction or xml declaration not closed: " ++
      "`?>` not found before end of input"
  | unclosedComment => "syntax error: comment not closed: `-->` not found before end of input"
  | unclosedCData => "syntax error: CDATA not closed: `]]>` not found before end of input"
  | unclosedDoctype => "syntax error: DOCTYPE not closed: `>` not found before end of input"
  | unclosedTag => "syntax error: tag not closed: `>` not found before end of input"
  | mismatchedEnd expected found =>
    s!"ill-formed document: expected `</{expected}>`, but `</{found}>` was found"
  | unmatchedEnd found =>
    s!"ill-formed document: close tag `</{found}>` does not match any open tag"
  | missingDoctypeName =>
    "ill-formed document: `<!DOCTYPE>` declaration does not contain a name of a document type"
  | badAttribute fault => fault.message
  | badReference fault => fault.message
  | unboundPrefix p => s!"unbound prefix '{p}'"
  | multipleRoots => "multiple root elements"
  | noRoot => "document has no root element"
  | unclosedElement => "unexpected end of document: unclosed element"
  | other message => message

end LabelTemplate.Xml
