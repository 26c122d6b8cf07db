import NovelScript.Program.Config
import NovelScript.Script.Run

/-!
Showing a script on a console. Of a text style only the colour and the weight can be shown, and
only where colour is wanted.
-/

namespace NovelScript

open Script (Color Event Font)

/-- What a console shows of a text style. -/
structure Style where
  foreground : Option Color := none
  bold : Bool := false
deriving DecidableEq, Repr

/-- The style that a font changes a style to. What the font leaves open stays. -/
def Style.apply (style : Style) (font : Font) : Style :=
  if font.isReset then {}
  else ⟨font.color <|> style.foreground, font.bold.getD style.bold⟩

/-- The escape sequences that switch to a style. -/
def Style.escapes (style : Style) : String :=
  let color := match style.foreground with
    | some c => "\x1b[38;2;" ++ toString c.red.toNat ++ ";" ++ toString c.green.toNat ++ ";" ++
        toString c.blue.toNat ++ "m"
    | none => ""
  color ++ if style.bold then "\x1b[1m" else ""

/-- The settings of a console. -/
structure ConsoleSettings where
  indentWidth : Nat
  /-- Percentage of every waiting time. -/
  waitScale : Nat
  /-- Pauses end by themselves. -/
  autoAdvance : Bool
  /-- Text is coloured. -/
  color : Bool
deriving DecidableEq, Repr

/-- The settings of a configuration, for a terminal or something else. -/
def ConsoleSettings.ofConfig (config : Config) (isTerminal : Bool) : ConsoleSettings :=
  ⟨config.indentWidth, config.waitScale, config.autoAdvance, config.color.getD isTerminal⟩

/-- A console. -/
structure Console where
  settings : ConsoleSettings
  style : Style := {}
deriving Repr

namespace Console

/-- Text in the current style. -/
def styled (text : String) (c : Console) : String :=
  if c.settings.color && c.style ≠ {} then c.style.escapes ++ text ++ "\x1b[0m" else text

/-- What is written for an event. -/
def render (event : Event) (c : Console) : String :=
  match event with
  | .text text => c.styled text
  | .newLine => "\n"
  | .newPage => "\x1b[2J\x1b[1;1H"
  | .indent count => String.ofList (List.replicate (count * c.settings.indentWidth) ' ')
  | .waitKey | .wait _ | .font _ => ""

/-- The console behind an event. -/
def after (event : Event) (c : Console) : Console :=
  match event with
  | .font font => { c with style := c.style.apply font }
  | _ => c

/-- How long to wait, in milliseconds. -/
def scaledWait (milliseconds : Int32) (c : Console) : Nat :=
  milliseconds.toInt.toNat * c.settings.waitScale / 100

end Console
end NovelScript
