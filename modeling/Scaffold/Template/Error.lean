/-!
What can be wrong with a template. A fault is a way in which a tag is no tag of the language, or in
which loops do not nest; an error is a fault, or a name that nothing binds, with the line of the
tag it was found at.
-/

namespace Scaffold.Template

/-- The two kinds of tag: `\x7b\x7b … \x7d\x7d` around an expression, `\x7b% … %\x7d` around a
directive. -/
inductive Delimiter where
  | expression
  | directive
  deriving DecidableEq, Repr

def Delimiter.opening : Delimiter → String
  | .expression => "\x7b\x7b"
  | .directive => "\x7b%"

def Delimiter.closing : Delimiter → String
  | .expression => "\x7d\x7d"
  | .directive => "%\x7d"

inductive Fault where
  | unclosed (delimiter : Delimiter)
  | emptyExpression
  | invalidExpression (text : String)
  | emptyDirective
  | unknownDirective (word : String)
  | invalidLoopHeader (text : String)
  | invalidLoopVariable (name : String)
  | invalidCollection (name : String)
  | loopEndOutsideLoop
  | loopNeverClosed (var collection : String)
  deriving DecidableEq, Repr

def Fault.message : Fault → String
  | .unclosed d => s!"unclosed `{d.opening}`: expected `{d.closing}`"
  | .emptyExpression => "empty placeholder `\x7b\x7b \x7d\x7d`"
  | .invalidExpression text => s!"invalid expression `{text}`"
  | .emptyDirective => "empty directive `\x7b% %\x7d`"
  | .unknownDirective word => s!"unsupported directive `{word}`"
  | .invalidLoopHeader text =>
    s!"invalid loop header `\x7b% {text} %\x7d`: " ++
      "expected `\x7b% for <var> in <collection> %\x7d`"
  | .invalidLoopVariable name => s!"invalid loop variable `{name}`"
  | .invalidCollection name => s!"invalid collection name `{name}`"
  | .loopEndOutsideLoop => "`\x7b% endfor %\x7d` without matching `\x7b% for %\x7d`"
  | .loopNeverClosed var collection =>
    s!"`\x7b% for {var} in {collection} %\x7d` is never closed with `\x7b% endfor %\x7d`"

inductive Error where
  | unbound (name : String) (line : Nat)
  | malformed (fault : Fault) (line : Nat)
  deriving DecidableEq, Repr

/-- The line of the tag at which the error was found. The first line is 1. -/
def Error.line : Error → Nat
  | .unbound _ line => line
  | .malformed _ line => line

def Error.message : Error → String
  | .unbound name line => s!"Unbound variable '{name}' at line {line}"
  | .malformed fault line => s!"Malformed template at line {line}: {fault.message}"

end Scaffold.Template
