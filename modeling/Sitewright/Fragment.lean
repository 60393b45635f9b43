import Sitewright.Text.Escape

/-!
Generated markup as a row of fragments: what the site writes itself, and what it shows of titles,
labels and other values. Only the former can hold tags.
-/
namespace Sitewright

/-- A fragment of generated markup. -/
inductive Fragment where
  /-- Markup, written as it is. -/
  | markup (t : Text)
  /-- A value, shown with its special characters escaped. -/
  | shown (t : Text)
  deriving DecidableEq

namespace Fragment

def text : Fragment → Text
  | markup t => t
  | shown t => Text.escapeShown t

/-- Markup given as a string. -/
def tags (s : String) : Fragment := markup s.toList

/-- The text of fragments in a row. -/
def render (fs : List Fragment) : Text := fs.flatMap text

/-- The fragments, if a condition holds. -/
def when (b : Bool) (fs : List Fragment) : List Fragment := if b then fs else []

end Fragment
end Sitewright
