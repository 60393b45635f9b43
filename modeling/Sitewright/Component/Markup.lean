import Sitewright.Fragment
import Sitewright.Slug

/-!
The markup of the components that layouts and listings are put together from.
-/
namespace Sitewright.Component

open Fragment

structure Head where
  title : Text
  basePath : Text := []
  description : Text := []
  keywords : Text := []
  styles : List Text := []
  scripts : List Text := []
  language : Text := "en".toList

/-- The start of a page: everything up to the end of its head. -/
def Head.fragments (h : Head) : List Fragment :=
  [tags "<!DOCTYPE html>\n<html lang=\"", shown h.language, tags "\">\n<head>\n",
    tags "    <meta charset=\"UTF-8\">\n",
    tags "    <meta name=\"viewport\" content=\"width=device-width, initial-scale=1.0\">\n"] ++
  when (!h.description.isEmpty)
    [tags "    <meta name=\"description\" content=\"", shown h.description, tags "\">\n"] ++
  when (!h.keywords.isEmpty)
    [tags "    <meta name=\"keywords\" content=\"", shown h.keywords, tags "\">\n"] ++
  [tags "    <meta name=\"base-path\" content=\"", shown h.basePath, tags "\">\n",
    tags "    <title>", shown h.title, tags "</title>\n",
    tags "    <link rel=\"stylesheet\" href=\"", shown h.basePath, tags "/assets/main.css\">\n",
    tags "    <link rel=\"stylesheet\" href=\"", shown h.basePath, tags "/assets/pygments.css\">\n"] ++
  h.styles.flatMap (fun href => [tags "    <link rel=\"stylesheet\" href=\"", shown href, tags "\">\n"]) ++
  h.scripts.flatMap (fun src => [tags "    <script src=\"", shown src, tags "\"></script>\n"]) ++
  [tags "</head>"]

def footScripts (basePath : Text) : List Fragment :=
  [tags "    <script src=\"", shown basePath, tags "/assets/main.js\"></script>"]

structure NavLink where
  label : Text
  href : Text
  active : Bool
  boosted : Bool

/-- The markup of a link of the navigation bar. -/
def NavLink.fragments (l : NavLink) : List Fragment :=
  [tags "            <a href=\"", shown l.href,
    tags "\" class=\"px-2 sm:px-4 py-1.5 sm:py-2 text-xs sm:text-sm font-medium rounded-md transition-colors duration-200 ",
    tags (if l.active then "text-blue-600 bg-blue-50" else "text-gray-700 hover:text-blue-600 hover:bg-gray-50"),
    tags "\""] ++
  when l.boosted [tags " hx-boost=\"true\""] ++
  when l.active [tags " aria-current=\"page\""] ++
  [tags ">", shown l.label, tags "</a>\n"]

/-- The navigation bar, nothing without links. -/
def navigation (links : List NavLink) : List Fragment :=
  when (!links.isEmpty) <|
    [tags "<nav class=\"site-nav bg-white shadow-sm border-b border-gray-200\">\n",
      tags "    <div class=\"max-w-7xl mx-auto px-4 sm:px-6 lg:px-8\">\n",
      tags "        <div class=\"flex flex-wrap gap-1 sm:gap-2 py-3 sm:py-0 sm:h-16 items-center\">\n"] ++
    links.flatMap NavLink.fragments ++
    [tags "        </div>\n    </div>\n</nav>"]

/-- Labels, each once, sorted without regard to case. -/
def sortedLabels (labels : List Text) : List Text :=
  labels.eraseDups.mergeSort fun a b => !Text.lt (Text.caseFold b) (Text.caseFold a)

def labelLink (basePath label : Text) : List Fragment :=
  [tags "            <a href=\"", shown basePath, tags "/label/", shown (slug label),
    tags "\" class=\"label-link text-xs bg-gray-100 text-gray-600 px-2 py-1 rounded-full hover:bg-blue-50 hover:text-blue-600\" data-label=\"",
    shown label, tags "\">", shown label, tags "</a>\n"]

/-- The labels of the whole site, nothing without labels. -/
def labelFooter (labels : List Text) (basePath : Text) : List Fragment :=
  when (!labels.isEmpty) <|
    [tags "<footer class=\"border-t border-gray-200 bg-white mt-12\">\n",
      tags "    <div class=\"max-w-7xl mx-auto px-4 sm:px-6 lg:px-8 py-6\">\n",
      tags "        <h2 class=\"text-sm font-semibold text-gray-500 uppercase tracking-wide mb-3\">Labels</h2>\n",
      tags "        <div class=\"flex flex-wrap gap-2\">\n"] ++
    (sortedLabels labels).flatMap (labelLink basePath) ++
    [tags "        </div>\n    </div>\n</footer>"]

structure Listed where
  url : Text
  title : Text
  category : Text
  /-- The day in words. -/
  date : Text
  /-- The day for machines. -/
  dateIso : Text
  description : Text

def Listed.fragments (p : Listed) : List Fragment :=
  [tags "        <li class=\"border-b border-gray-100 pb-4\">\n",
    tags "            <a href=\"", shown p.url,
    tags "\" class=\"text-lg font-semibold text-blue-600 hover:underline\">", shown p.title, tags "</a>\n"] ++
  when (!p.category.isEmpty)
    [tags "            <span class=\"inline-block bg-blue-100 text-blue-800 text-xs font-medium px-2.5 py-0.5 rounded ml-2\">",
      shown p.category, tags "</span>\n"] ++
  when (!p.date.isEmpty)
    [tags "            <time class=\"block text-sm text-gray-500\" datetime=\"", shown p.dateIso,
      tags "\">", shown p.date, tags "</time>\n"] ++
  when (!p.description.isEmpty)
    [tags "            <p class=\"text-gray-600 mt-1\">", shown p.description, tags "</p>\n"] ++
  [tags "        </li>\n"]

/-- The listing of the pages with a label or of a category. -/
def listingIndex (heading : Text) (pages : List Listed) : List Fragment :=
  [tags "<section class=\"listing-index\">\n",
    tags "    <h1 class=\"text-3xl font-bold text-gray-900 mb-6\">", shown heading, tags "</h1>\n",
    tags "    <ul class=\"space-y-4\">\n"] ++
  pages.flatMap Listed.fragments ++
  [tags "    </ul>\n</section>"]

/-- A page in the listing of the pages below another one. -/
structure ListedChild where
  url : Text
  title : Text
  /-- The day in words and the category. -/
  about : Text
  description : Text

/-- The markup of a page below another one. -/
def ListedChild.fragments (c : ListedChild) : List Fragment :=
  [tags "    <li class=\"child-page\">\n", tags "        <a href=\"", shown c.url,
    tags "\" class=\"text-xl font-semibold text-blue-600 hover:underline\">", shown c.title, tags "</a>\n"] ++
  when (!c.about.isEmpty)
    [tags "        <div class=\"text-sm text-gray-500 mt-1\">", shown c.about, tags "</div>\n"] ++
  when (!c.description.isEmpty)
    [tags "        <p class=\"text-gray-600 mt-1\">", shown c.description, tags "</p>\n"] ++
  [tags "    </li>\n"]

def childrenListing (children : List ListedChild) : List Fragment :=
  [tags "<ul class=\"children-list space-y-6\">\n"] ++
  (if children.isEmpty then [tags "    <li class=\"child-page text-gray-500\">No pages yet.</li>\n"]
    else children.flatMap ListedChild.fragments) ++
  [tags "</ul>"]

/-- A step of a breadcrumb trail. -/
structure Crumb where
  title : Text
  href : Text

/-- The markup of the steps of a trail; the last one is the page itself and no link. -/
def crumbFragments : List Crumb → List Fragment
  | [] => []
  | [c] => [tags "        <li aria-current=\"page\">", shown c.title, tags "</li>\n"]
  | c :: cs =>
    [tags "        <li><a href=\"", shown c.href, tags "\" class=\"hover:text-blue-600\">",
      shown c.title, tags "</a> <span aria-hidden=\"true\">/</span></li>\n"] ++ crumbFragments cs

/-- A breadcrumb trail, nothing for fewer than two steps. -/
def breadcrumbs (trail : List Crumb) : List Fragment :=
  when (2 ≤ trail.length) <|
    [tags "<nav class=\"breadcrumbs text-sm text-gray-500 mb-4\" aria-label=\"Breadcrumb\">\n",
      tags "    <ol class=\"flex flex-wrap gap-2\">\n"] ++
    crumbFragments trail ++
    [tags "    </ol>\n</nav>"]

/-- The badge of a category, nothing without one. -/
def categoryPill (category : Text) : List Fragment :=
  when (!category.isEmpty)
    [tags "<span class=\"inline-block bg-blue-100 text-blue-800 text-xs font-medium px-2.5 py-0.5 rounded\">",
      shown category, tags "</span>"]

def labelBadges (labels : List Text) : List Fragment :=
  labels.flatMap fun label =>
    [tags "<span class=\"text-xs bg-gray-100 text-gray-600 px-2 py-1 rounded-full\">", shown label, tags "</span>"]

structure BlogHeader where
  title : Text
  readingTime : Text
  author : Text := []
  dateIso : Text := []
  dateText : Text := []
  category : Text := []
  labels : List Text := []

def BlogHeader.fragments (h : BlogHeader) : List Fragment :=
  [tags "<header class=\"mb-8 border-b border-gray-200 pb-6\">\n"] ++
  when (!h.category.isEmpty) ([tags "    "] ++ categoryPill h.category ++ [tags "\n"]) ++
  [tags "    <h1 class=\"text-3xl font-bold text-gray-900 mt-2\">", shown h.title, tags "</h1>\n",
    tags "    <div class=\"flex flex-wrap items-center gap-3 text-sm text-gray-500 mt-2\">"] ++
  when (!h.author.isEmpty) [tags "<span class=\"byline\">", shown h.author, tags "</span> · "] ++
  when (!h.dateIso.isEmpty)
    [tags "<time datetime=\"", shown h.dateIso, tags "\">", shown h.dateText, tags "</time> · "] ++
  [tags "<span class=\"reading-time\">", shown h.readingTime, tags "</span></div>\n"] ++
  when (!h.labels.isEmpty)
    ([tags "    <div class=\"flex flex-wrap gap-2 mt-3\">"] ++ labelBadges h.labels ++ [tags "</div>\n"]) ++
  [tags "</header>"]

end Sitewright.Component
