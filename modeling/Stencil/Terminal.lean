/-! # Colours of a terminal -/

namespace Stencil.Terminal

inductive Colour
  | reset
  | bold
  | dim
  | cyan
  | green
  | brightRed
  | brightGreen
deriving DecidableEq, Repr

def Colour.sequence : Colour → String
  | .reset => "\x1b[0m"
  | .bold => "\x1b[1m"
  | .dim => "\x1b[2m"
  | .cyan => "\x1b[36m"
  | .green => "\x1b[32m"
  | .brightRed => "\x1b[91m"
  | .brightGreen => "\x1b[92m"

def Colour.ofName? : String → Option Colour
  | "reset" => some .reset
  | "bold" => some .bold
  | "dim" => some .dim
  | "cyan" => some .cyan
  | "green" => some .green
  | "bright_red" => some .brightRed
  | "bright_green" => some .brightGreen
  | _ => none

/-- Forced colours win over forbidden ones; an empty setting counts as none. -/
def wantsColour (forced forbidden : Option String) (isTerminal : Bool) : Bool :=
  if forced.any (!·.isEmpty) then true
  else if forbidden.any (!·.isEmpty) then false
  else isTerminal

/-! ## Painting -/

/-- A text in colours, where the terminal shows any. -/
def paint (coloured : Bool) (colours : List Colour) (text : String) : String :=
  if coloured && !colours.isEmpty then
    String.join (colours.map Colour.sequence) ++ text ++ Colour.reset.sequence
  else text

/-- Colours by name; the first unknown one fails, but only where colours show. -/
def paintNamed (coloured : Bool) (names : List String) (text : String) : Except String String :=
  if coloured then do
    let colours ← names.mapM fun name => match Colour.ofName? name with
      | some colour => .ok colour
      | none => .error name
    return paint coloured colours text
  else .ok text

def location (coloured : Bool) (text : String) : String := paint coloured [.cyan] text

def hint (coloured : Bool) (text : String) : String := paint coloured [.green] text

def suggestion (coloured : Bool) (text : String) : String :=
  paint coloured [.brightGreen, .bold] text

def dimmed (coloured : Bool) (text : String) : String := paint coloured [.dim] text

def header (coloured : Bool) (code : Option String) (message : String) : String :=
  match code with
  | some code =>
    if code.isEmpty then message
    else paint coloured [.brightRed, .bold] code ++ ": " ++ message
  | none => message

end Stencil.Terminal
