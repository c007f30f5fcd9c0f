import MiniLisp.Text.Blank

/-!
# Settings

What a session takes from its surroundings: texts that may be missing. They are read without the
blanks at their ends and without regard to case.

## Main definitions

* `flagSetting`: a switch
* `Level`, `levelSetting`: how grave an entry of the log has to be
-/

namespace MiniLisp

/-- The words that turn a switch off. -/
def offWords : List String := ["0", "false", "no", "off"]

/-- A switch: any word but one that turns it off turns it on; without a word, it is as it stands
by default. -/
def flagSetting (default : Bool) (setting : Option String) : Bool :=
  let word := strip ((setting.getD "").toList)
  if word = [] then default
  else !offWords.contains (String.ofList (word.map Char.toLower))

/-- How grave an entry of the log is. -/
inductive Level where
  | notSet
  | debug
  | info
  | warning
  | error
  | critical
deriving DecidableEq

namespace Level

/-- The gravity as a number. -/
def gravity : Level → Nat
  | notSet => 0
  | debug => 10
  | info => 20
  | warning => 30
  | error => 40
  | critical => 50

/-- The names of the levels; two have a second name. -/
def names : List (String × Level) :=
  [("CRITICAL", critical), ("FATAL", critical), ("ERROR", error), ("WARNING", warning),
    ("WARN", warning), ("INFO", info), ("DEBUG", debug), ("NOTSET", notSet)]

end Level

/-- The capital letter of a letter, as far as the names of the levels are concerned: the dotless i
and the long s have plain capitals too. -/
def levelCapital (c : Char) : Char :=
  if c = 'ı' then 'I' else if c = 'ſ' then 'S' else c.toUpper

/-- The level of the given name; a missing or unknown one means warnings. -/
def levelSetting (setting : Option String) : Level :=
  let word := (strip ((setting.getD "").toList)).map levelCapital
  (Level.names.lookup (String.ofList word)).getD .warning

end MiniLisp
