import Sitewright.Proofs.DayNumber
import Sitewright.Proofs.Iso
import Sitewright.Proofs.MarkupReading

/-!
The day in the header of a post. For machines it is the day that the date itself writes, for readers the
day in UTC. The two are one day unless the offset of the date leads over midnight.
-/
namespace Sitewright

namespace Date

lemma iso_injective : Function.Injective iso := by
  intro d e h
  have hd := Iso.date?_iso d [] 10
  have he := Iso.date?_iso e [] 10
  rw [h, he] at hd
  exact (Option.some.inj hd).symm

/-- The name of a month, January being 0. -/
def monthName (i : ℕ) : Text := (monthNames.getD i "").toList

lemma space_not_mem_monthName : ∀ i < 12, ' ' ∉ monthName i := by decide

lemma monthName_inj : ∀ i < 12, ∀ j < 12, monthName i = monthName j → i = j := by decide

/-- The words of a date tell its month, its day and its year. -/
lemma inWords_injective : Function.Injective inWords := by
  intro d e h
  have hmonth : ∀ d : Date, 1 ≤ d.month ∧ d.month - 1 < 12 := fun d => by
    obtain ⟨-, -, hmonth, hmonth', -⟩ := d.isDate
    omega
  have hcomma : ∀ n : ℕ, ',' ∉ Text.ofNat n := fun n hn => by
    have hdigit := Text.all_isDigit_ofNat n ',' hn
    revert hdigit
    decide
  have hwords : ∀ d : Date, d.inWords =
      monthName (d.month - 1) ++ ' ' :: (Text.ofNat d.day ++ ',' :: ' ' :: Text.ofNat d.year) := fun d => by
    simp [inWords, monthName]
  rw [hwords, hwords] at h
  obtain ⟨hname, hrest⟩ := Text.append_cons_inj h (space_not_mem_monthName _ (hmonth d).2)
    (space_not_mem_monthName _ (hmonth e).2)
  obtain ⟨hday, hyear⟩ := Text.append_cons_inj hrest (hcomma d.day) (hcomma e.day)
  have hindex := monthName_inj _ (hmonth d).2 _ (hmonth e).2 hname
  have hd := (hmonth d).1
  have he := (hmonth e).1
  refine (of?_eq_some_iff.mpr ⟨?_, ?_, ?_⟩ : of? e.year e.month e.day = some d).symm.trans e.of?_parts
    |> Option.some.inj
  · exact Text.ofNat_injective (List.cons.inj hyear).2
  · omega
  · exact Text.ofNat_injective hday

end Date

namespace Day

/-- The day that a date or a moment itself writes. -/
def own : Date ⊕ Moment → Date
  | .inl d => d
  | .inr m => m.date

/-- The day in UTC; one without an offset is as it is written. -/
def utc? : Date ⊕ Moment → Option Date
  | .inl d => some d
  | .inr m => m.utcDate?

/-- The offset leads over midnight, to the day before or to the day after. -/
def LeavesDay : Date ⊕ Moment → Prop
  | .inl _ => False
  | .inr m => ∃ o ∈ m.offset, m.time < o ∨ dayMicros ≤ m.time - o

variable {v : Date ⊕ Moment} {day : Date}

lemma iso_eq (v : Date ⊕ Moment) : iso v = (own v).iso := by
  cases v <;> rfl

lemma inWords_of_utc? (h : utc? v = some day) : inWords v = .ok day.inWords := by
  cases v with
  | inl d =>
    obtain rfl := Option.some.inj h
    rfl
  | inr m =>
    rw [utc?] at h
    rw [inWords, h]

lemma inWords_of_utc?_eq_none (h : utc? v = none) : inWords v = .error .beyondCalendar := by
  cases v with
  | inl d => cases h
  | inr m =>
    rw [utc?] at h
    rw [inWords, h]

/-- The day in UTC is another one just if the offset leads over midnight. -/
lemma own_ne_iff (h : utc? v = some day) : own v ≠ day ↔ LeavesDay v := by
  cases v with
  | inl d =>
    obtain rfl := Option.some.inj h
    simp [own, LeavesDay]
  | inr m =>
    rw [utc?] at h
    have htime := m.time_lt
    cases ho : m.offset with
    | none =>
      rw [Moment.utcDate?, ho] at h
      obtain rfl := Option.some.inj h
      simp [own, LeavesDay, ho]
    | some o =>
      have hholds := Moment.holds_utcDate? ho h
      have hnumber : m.date = day ↔ m.date.number = day.number := Date.number_injective.eq_iff.symm
      unfold Date.Holds at hholds
      simp only [own, LeavesDay, ho, ne_eq, hnumber, Option.mem_def, Option.some.injEq, exists_eq_left']
      rw [dayMicros_eq] at *
      omega

end Day

namespace Component
open Fragment
open Text (Avoids all_written_when avoids_of_not_mem avoids_render breakAt?_avoids enclosed escapeShown
  findAll findAll_enclosed findAll_enclosed_avoids findAll_enclosed_eq_nil isClear mark_not_mem_escapeShown
  render_append unescape unescape_escapeShown)

/-- The times that markup gives: for machines, in the attribute, and for readers, between the tags. -/
def times (html : Text) : List (Text × Text) :=
  (findAll (enclosed "<time datetime=\"".toList "</time>".toList) html).filterMap fun body =>
    (Text.breakAt? "\">".toList body).map fun (machine, words) => (unescape machine, unescape words)

section Times

variable (h : BlogHeader)

/-- The header of a post up to its date. -/
def BlogHeader.front : List Fragment :=
  [tags "<header class=\"mb-8 border-b border-gray-200 pb-6\">\n"] ++
  when (!h.category.isEmpty) ([tags "    "] ++ categoryPill h.category ++ [tags "\n"]) ++
  [tags "    <h1 class=\"text-3xl font-bold text-gray-900 mt-2\">", shown h.title, tags "</h1>\n",
    tags "    <div class=\"flex flex-wrap items-center gap-3 text-sm text-gray-500 mt-2\">"] ++
  when (!h.author.isEmpty) [tags "<span class=\"byline\">", shown h.author, tags "</span> · "]

/-- The header of a post behind its date. -/
def BlogHeader.back : List Fragment :=
  [tags " · "] ++
  [tags "<span class=\"reading-time\">", shown h.readingTime, tags "</span></div>\n"] ++
  when (!h.labels.isEmpty)
    ([tags "    <div class=\"flex flex-wrap gap-2 mt-3\">"] ++ labelBadges h.labels ++ [tags "</div>\n"]) ++
  [tags "</header>"]

lemma isClear_categoryPill (category : Text) :
    (written (categoryPill category)).all (isClear "<time datetime=\"".toList) = true :=
  all_written_when _ rfl

lemma isClear_labelBadges (labels : List Text) :
    (written (labelBadges labels)).all (isClear "<time datetime=\"".toList) = true := by
  induction labels with
  | nil => rfl
  | cons label labels ih =>
    rw [labelBadges, List.flatMap_cons, ← labelBadges, written_append, List.all_append, ih]
    rfl

/-- No time is written in front of the date. -/
lemma avoids_front : Avoids "<time datetime=\"".toList (render h.front) := by
  refine avoids_render rfl ?_
  simp only [BlogHeader.front, written_append, List.all_append, Bool.and_eq_true]
  refine ⟨⟨⟨rfl, all_written_when _ ?_⟩, rfl⟩, all_written_when _ rfl⟩
  simp only [written_append, List.all_append, isClear_categoryPill]
  rfl

/-- No time is written behind the date. -/
lemma avoids_back : Avoids "<time datetime=\"".toList (render h.back) := by
  refine avoids_render rfl ?_
  simp only [BlogHeader.back, written_append, List.all_append, Bool.and_eq_true]
  refine ⟨⟨⟨rfl, rfl⟩, all_written_when _ ?_⟩, rfl⟩
  simp only [written_append, List.all_append, isClear_labelBadges]
  rfl

lemma render_blogHeader (hdate : h.dateIso ≠ []) : render h.fragments =
    render h.front ++ ("<time datetime=\"".toList ++
      (render [shown h.dateIso, tags "\">", shown h.dateText] ++ ("</time>".toList ++ render h.back))) := by
  have hempty : (!h.dateIso.isEmpty) = true := by simpa using hdate
  have hsplit : render [tags "<time datetime=\"", shown h.dateIso, tags "\">", shown h.dateText,
      tags "</time> · "] = "<time datetime=\"".toList ++
        (render [shown h.dateIso, tags "\">", shown h.dateText] ++ ("</time>".toList ++ render [tags " · "])) := by
    simp [render, tags, Fragment.text]
  have hwhen : ∀ fs, when true fs = fs := fun _ => rfl
  simp only [BlogHeader.fragments, BlogHeader.front, BlogHeader.back, hempty, hwhen, render_append, hsplit,
    List.append_assoc]

/-- The header of a post with a date gives that time and no other. -/
lemma times_blogHeader (hdate : h.dateIso ≠ []) :
    times (render h.fragments) = [(h.dateIso, h.dateText)] := by
  have hbody : Avoids "</time>".toList (render [shown h.dateIso, tags "\">", shown h.dateText]) :=
    avoids_render rfl rfl
  have hquote : Avoids "\">".toList (escapeShown h.dateIso) :=
    avoids_of_not_mem rfl fun hmem => mark_not_mem_escapeShown hmem (by decide)
  have hfound : findAll (enclosed "<time datetime=\"".toList "</time>".toList) (render h.fragments) =
      [render [shown h.dateIso, tags "\">", shown h.dateText]] := by
    rw [render_blogHeader h hdate]
    exact (findAll_enclosed_avoids (avoids_front h) _).trans <|
      (findAll_enclosed (by decide) (by decide) hbody _).trans
        (congrArg _ (findAll_enclosed_eq_nil (avoids_back h)))
  have hbreak : Text.breakAt? "\">".toList (render [shown h.dateIso, tags "\">", shown h.dateText]) =
      some (escapeShown h.dateIso, escapeShown h.dateText) := by
    have hsplit : render [shown h.dateIso, tags "\">", shown h.dateText] =
        escapeShown h.dateIso ++ ("\">".toList ++ escapeShown h.dateText) := by
      simp [render, tags, Fragment.text]
    rw [hsplit]
    exact breakAt?_avoids (by decide) hquote _
  rw [times, hfound, List.filterMap_cons, hbreak]
  simp only [Option.map_some, List.filterMap_nil, unescape_escapeShown]

end Times

end Component

namespace Template
open Component

section Day

variable {ctx : Context} {v : Date ⊕ Moment} {words : Text}

lemma dateInWords_eq (h : ctx.date = some v) : dateInWords ctx = Day.inWords v := by
  rw [dateInWords, h]

/-- The header of a page with a date. -/
def blogHeader (ctx : Context) (v : Date ⊕ Moment) (words : Text) : BlogHeader where
  title := ctx.title
  readingTime := Reading.text ctx.content
  author := ctx.author
  dateIso := Day.iso v
  dateText := words
  category := ctx.category
  labels := ctx.labels

/-- The props that this header is rendered with. -/
def headerProps (ctx : Context) (v : Date ⊕ Moment) (words : Text) : Props :=
  [("title".toList, .text ctx.title), ("author".toList, .text ctx.author),
    ("date_iso".toList, .text (Day.iso v)), ("date_text".toList, .text words),
    ("reading_time".toList, .text (Reading.text ctx.content)),
    ("category".toList, .text ctx.category), ("labels".toList, texts ctx.labels)]

lemma textIfTrue_text (t : Text) : textIfTrue (some (.text t)) = t := by
  cases t <;> rfl

lemma itemsIfTrue_texts (ts : List Text) : itemsIfTrue (some (texts ts)) = .ok (ts.map .text) := by
  cases ts <;> rfl

lemma blogHeader_headerProps (ctx : Context) (v : Date ⊕ Moment) (words : Text) :
    Component.blogHeader (headerProps ctx v words) =
      .ok (Fragment.render (blogHeader ctx v words).fragments) := by
  have hshown : (ctx.labels.map Value.text).map Value.shown = ctx.labels := by
    rw [List.map_map]
    exact List.map_id ctx.labels
  have hread : Component.blogHeader (headerProps ctx v words) =
      ((itemsIfTrue (some (texts ctx.labels))).bind fun items => .ok (BlogHeader.fragments {
        title := ctx.title
        readingTime := Reading.text ctx.content
        author := textIfTrue (some (.text ctx.author))
        dateIso := textIfTrue (some (.text (Day.iso v)))
        dateText := words
        category := textIfTrue (some (.text ctx.category))
        labels := items.map Value.shown })).bind fun fs => .ok (Fragment.render fs) := rfl
  rw [hread, itemsIfTrue_texts]
  simp only [Except.bind, hshown, textIfTrue_text, blogHeader]

lemma resolve_blogHeader (h : ctx.date = some v) : resolve builtin ctx "blog-header".toList =
    (Day.inWords v).map fun words => Fragment.render (blogHeader ctx v words).fragments := by
  have hiso : Day.iso v = (ctx.date.map Day.iso).getD [] := by
    rw [h]
    rfl
  have hresolve : resolve builtin ctx "blog-header".toList = Day.inWords v >>= fun words =>
      (Component.blogHeader (headerProps ctx v words)).mapError .component := by
    unfold headerProps
    rw [← dateInWords_eq h, hiso]
    rfl
  rw [hresolve]
  cases Day.inWords v with
  | error e => rfl
  | ok words => exact congrArg (Except.mapError TagError.component) (blogHeader_headerProps ctx v words)

/-- The header of a page with a date, and the tag of its date, fail just if the day in UTC lies beyond
the calendar. Otherwise the header has one time: for machines the day that the date itself writes, for
readers the day in UTC, as the tag has it. The two days differ just if the offset of the date leads over
midnight. -/
theorem resolve_blogHeader_day (h : ctx.date = some v) :
    (Day.utc? v = none → resolve builtin ctx "blog-header".toList = .error .beyondCalendar ∧
      resolve builtin ctx "formatted-date".toList = .error .beyondCalendar) ∧
    ∀ day, Day.utc? v = some day →
      (∃ html, resolve builtin ctx "blog-header".toList = .ok html ∧
        resolve builtin ctx "formatted-date".toList = .ok day.inWords ∧
        ∀ machine shown : Date, times html = [(machine.iso, shown.inWords)] ↔
          machine = Day.own v ∧ shown = day) ∧
      (Day.own v ≠ day ↔ Day.LeavesDay v) := by
  have htag : resolve builtin ctx "formatted-date".toList = Day.inWords v := dateInWords_eq h
  refine ⟨fun hnone => ?_, fun day hday => ⟨?_, Day.own_ne_iff hday⟩⟩
  · rw [htag, resolve_blogHeader h, Day.inWords_of_utc?_eq_none hnone]
    exact ⟨rfl, rfl⟩
  · have hwords := Day.inWords_of_utc? hday
    refine ⟨Fragment.render (blogHeader ctx v day.inWords).fragments, ?_, htag.trans hwords, ?_⟩
    · rw [resolve_blogHeader h, hwords]
      rfl
    · intro machine shown
      have hiso : Day.iso v ≠ [] := by
        rw [Day.iso_eq]
        simp [Date.iso]
      rw [times_blogHeader _ hiso]
      simp only [blogHeader, Day.iso_eq, List.cons.injEq, and_true, Prod.mk.injEq,
        Date.iso_injective.eq_iff, Date.inWords_injective.eq_iff]
      exact and_congr eq_comm eq_comm

/-- Half past eleven in the evening, five hours behind UTC. -/
def lateEvening : Moment :=
  ⟨⟨2026, 1, 31, by decide⟩, 84600000000, some (-18000000000), by decide, by rintro _ ⟨⟩; decide⟩

/-- A page of that moment. -/
def latePage : Context := { title := "Late".toList, date := some (.inr lateEvening) }

theorem resolve_blogHeader_day_latePage :
    ∃ html, resolve builtin latePage "blog-header".toList = .ok html ∧
      times html = [("2026-01-31".toList, "February 1, 2026".toList)] := by
  have hutc : Day.utc? (.inr lateEvening) = some ⟨2026, 2, 1, by decide⟩ := by decide
  have hdate : latePage.date = some (.inr lateEvening) := rfl
  obtain ⟨⟨html, hheader, -, htimes⟩, -⟩ := (resolve_blogHeader_day hdate).2 _ hutc
  exact ⟨html, hheader, (htimes _ _).mpr ⟨rfl, rfl⟩⟩

end Day

end Template

end Sitewright
