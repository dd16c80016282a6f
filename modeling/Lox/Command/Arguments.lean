namespace Lox.Command

structure Invocation where
  script : Option String := none
  dump   : Bool := false
  print  : Bool := false

inductive Request
  | help
  | version
  | misuse
  | perform (i : Invocation)

namespace Invocation

def withDump (i : Invocation) : Except Request Invocation :=
  if i.dump then .error .misuse else .ok { i with dump := true }

def withPrint (i : Invocation) : Except Request Invocation :=
  if i.print then .error .misuse else .ok { i with print := true }

def withScript (i : Invocation) (name : String) : Except Request Invocation :=
  if i.script.isSome || name.isEmpty then .error .misuse else .ok { i with script := some name }

-- A form in which the program is printed takes a script, and there is only one such form. This is
-- decided at the end, since the options may stand on both sides of the script.
def request (i : Invocation) : Request :=
  if (i.dump || i.print) && i.script.isNone || i.dump && i.print then .misuse else .perform i

def withLetter : Char → Request
  | 'h' => .help
  | 'V' => .version
  | _   => .misuse

def withOption (i : Invocation) (name : String) : Except Request Invocation :=
  match name with
  | "help"      => .error .help
  | "version"   => .error .version
  | "dump-ast"  => i.withDump
  | "print-ast" => i.withPrint
  | _           => .error .misuse

def withArgument (i : Invocation) (arg : String) : Except Request Invocation :=
  match arg.toList with
  | '-' :: '-' :: name => i.withOption (String.ofList name)
  | '-' :: letter :: _ => .error (withLetter letter)
  | _                  => i.withScript arg

end Invocation

namespace Request

def ofScripts (i : Invocation) : List String → Request
  | []           => i.request
  | name :: args =>
    match i.withScript name with
    | .ok i    => ofScripts i args
    | .error r => r

-- Arguments are read from left to right, and what can be decided at an argument is decided there:
-- help is given before a later mistake is seen, but not after one. Behind two dashes there are no
-- options, so that a script can have a name that looks like one.
def ofArguments (i : Invocation) : List String → Request
  | []           => i.request
  | "--" :: args => ofScripts i args
  | arg :: args  =>
    match i.withArgument arg with
    | .ok i    => ofArguments i args
    | .error r => r

end Request
end Lox.Command
