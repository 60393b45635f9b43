import Sitewright.Text.Basic

/-!
The styles that code can be highlighted in.
-/
namespace Sitewright.CodeStyle

/-- The known styles. -/
def names : List String := ["abap", "algol", "algol_nu", "arduino", "autumn", "borland", "bw",
  "coffee", "colorful", "default", "dracula", "emacs", "friendly", "friendly_grayscale", "fruity",
  "github-dark", "gruvbox-dark", "gruvbox-light", "igor", "inkpot", "lightbulb", "lilypond",
  "lovelace", "manni", "material", "monokai", "murphy", "native", "nord", "nord-darker", "one-dark",
  "paraiso-dark", "paraiso-light", "pastie", "perldoc", "rainbow_dash", "rrt", "sas",
  "solarized-dark", "solarized-light", "staroffice", "stata", "stata-dark", "stata-light", "tango",
  "trac", "vim", "vs", "xcode", "zenburn"]

/-- Is there a style of this name? -/
def isKnown (name : Text) : Bool := names.any fun n => n.toList = name

/-- The stylesheet for highlighted code. All styles share it. -/
def stylesheet : Text := ".codehilite pre \x7b line-height: 125%; \x7d\n".toList

end Sitewright.CodeStyle
