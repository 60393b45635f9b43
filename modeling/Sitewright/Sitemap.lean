import Sitewright.Catalog
import Sitewright.Fragment

/-!
What search engines are told: the addresses of the pages, and where to find them.
-/
namespace Sitewright.Sitemap

open Fragment

def labelDirectory : Text := "label".toList

def categoryDirectory : Text := "category".toList

/-- The file for crawlers. -/
def robots (siteUrl basePath : Text) : Text :=
  "User-agent: *\nAllow: /\n\nSitemap: ".toList ++ Text.dropEndWhile (· = '/') siteUrl ++ basePath ++
    "/sitemap.xml\n".toList

/-- Is this the address of a listing, whose pages are listed anyway? -/
def isListing (basePath url : Text) : Bool :=
  [labelDirectory, categoryDirectory].any fun d => (basePath ++ '/' :: d ++ ['/']).isPrefixOf url

def entries (basePath : Text) (es : List Entry) : List Entry := es.filter fun e => !isListing basePath e.url

/-- The markup of an address. -/
def location (siteUrl : Text) (e : Entry) : List Fragment :=
  [tags "  <url>\n    <loc>", shown siteUrl, shown e.url, tags "</loc>\n"] ++
  (match e.date with
    | some d => when (!d.isEmpty) [tags "    <lastmod>", shown d, tags "</lastmod>\n"]
    | none => []) ++
  [tags "  </url>\n"]

/-- The sitemap: the addresses of the pages, with the dates of those that have one. -/
def xml (siteUrl basePath : Text) (es : List Entry) : Text :=
  render ([tags "<?xml version=\"1.0\" encoding=\"UTF-8\"?>\n",
    tags "<urlset xmlns=\"http://www.sitemaps.org/schemas/sitemap/0.9\">\n"] ++
    (entries basePath es).flatMap (location (Text.dropEndWhile (· = '/') siteUrl)) ++ [tags "</urlset>"])

end Sitewright.Sitemap
