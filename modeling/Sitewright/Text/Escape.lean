import Sitewright.Text.Basic

/-!
Escaping for HTML. Text that stands between tags needs three characters escaped, text inside a
quoted attribute also the quotes.
-/
namespace Sitewright.Text

/-- `&`, `<` and `>` as entities. -/
def escapeText (t : Text) : Text := t.flatMap fun c =>
  if c = '&' then "&amp;".toList
  else if c = '<' then "&lt;".toList
  else if c = '>' then "&gt;".toList
  else [c]

/-- `&`, `<`, `>` and both quotes as entities, the single quote in hexadecimal. -/
def escapeAttribute (t : Text) : Text := t.flatMap fun c =>
  if c = '&' then "&amp;".toList
  else if c = '<' then "&lt;".toList
  else if c = '>' then "&gt;".toList
  else if c = '"' then "&quot;".toList
  else if c = '\'' then "&#x27;".toList
  else [c]

/-- Values shown in the site's own markup: as `escapeAttribute`, both quotes by their decimal
numbers. -/
def escapeShown (t : Text) : Text := t.flatMap fun c =>
  if c = '&' then "&amp;".toList
  else if c = '<' then "&lt;".toList
  else if c = '>' then "&gt;".toList
  else if c = '"' then "&#34;".toList
  else if c = '\'' then "&#39;".toList
  else [c]

end Sitewright.Text
