import Sitewright.Proofs.Result
import Sitewright.Site.Build

/-!
How sources are loaded. Each file becomes a document of its own or is left out with a reason, whatever
files are beside it.
-/
namespace Sitewright.Site

/-- What becomes of a source: a document, or a reason to leave it out, which is a malformed header. -/
inductive Loaded : FileName × FileContent → List Document → List (Text × Text) → Prop
  | document {name : FileName} {t : Text} {d : Document}
      (h : Document.load (Text.unifyReturns t) (pathOf name) = .ok d) : Loaded (name, .text t) [d] []
  | skipped {name : FileName} {t : Text} {e : HeaderError}
      (h : Document.load (Text.unifyReturns t) (pathOf name) = .error (.header e))
      (malformed : e.isMalformed = true) : Loaded (name, .text t) [] [(pathOf name, e.message)]

lemma path_of_load {text path : Text} {d : Document} (h : Document.load text path = .ok d) :
    d.path = path := by
  obtain ⟨split, -, h⟩ := except_bind_ok h
  obtain ⟨page, -, h⟩ := except_bind_ok h
  cases h
  rfl

variable {files front back : List (FileName × FileContent)} {f : FileName × FileContent}
  {documents : List Document} {skipped : List (Text × Text)}

lemma loadFiles_cons (h : loadFiles (f :: files) = .ok (documents, skipped)) :
    ∃ own left documents' skipped', Loaded f own left ∧
      loadFiles files = .ok (documents', skipped') ∧
      documents = own ++ documents' ∧ skipped = left ++ skipped' := by
  obtain ⟨name, content⟩ := f
  unfold loadFiles at h
  cases content with
  | bytes bs => cases h
  | text t =>
    dsimp only at h
    split at h
    · rename_i d hd
      obtain ⟨⟨documents', skipped'⟩, hrest, h⟩ := except_bind_ok h
      cases h
      exact ⟨_, _, _, _, .document hd, hrest, rfl, rfl⟩
    · rename_i e he
      split at h
      · rename_i hmalformed
        obtain ⟨⟨documents', skipped'⟩, hrest, h⟩ := except_bind_ok h
        cases h
        exact ⟨_, _, _, _, .skipped he hmalformed, hrest, rfl, rfl⟩
      · cases h
    · cases h

lemma loadFiles_of_cons {own : List Document} {left : List (Text × Text)} (hown : Loaded f own left)
    (h : loadFiles files = .ok (documents, skipped)) :
    loadFiles (f :: files) = .ok (own ++ documents, left ++ skipped) := by
  cases hown with
  | document hd => simp [loadFiles, hd, h, bind, Except.bind, pure, Except.pure]
  | skipped he hmalformed =>
    simp [loadFiles, he, hmalformed, h, bind, Except.bind, pure, Except.pure]

/-- What becomes of one source is among what becomes of all, and of the others becomes the same
without it. -/
lemma loadFiles_without (h : loadFiles (front ++ f :: back) = .ok (documents, skipped)) :
    ∃ own left before after before' after', Loaded f own left ∧
      documents = before ++ own ++ after ∧ skipped = before' ++ left ++ after' ∧
      loadFiles (front ++ back) = .ok (before ++ after, before' ++ after') := by
  induction front generalizing documents skipped with
  | nil =>
    obtain ⟨own, left, documents', skipped', hown, hrest, rfl, rfl⟩ := loadFiles_cons h
    exact ⟨own, left, [], documents', [], skipped', hown, rfl, rfl, hrest⟩
  | cons g front ih =>
    obtain ⟨first, left', documents', skipped', hfirst, hrest, rfl, rfl⟩ := loadFiles_cons h
    obtain ⟨own, left, before, after, before', after', hown, rfl, rfl, hwithout⟩ := ih hrest
    refine ⟨own, left, first ++ before, after, left' ++ before', after', hown, ?_, ?_, ?_⟩
    · simp only [List.append_assoc]
    · simp only [List.append_assoc]
    · simpa only [List.cons_append, List.append_assoc] using loadFiles_of_cons hfirst hwithout

/-- A source becomes one thing only. -/
lemma Loaded.unique {own own' : List Document} {left left' : List (Text × Text)}
    (h : Loaded f own left) (h' : Loaded f own' left') : own = own' ∧ left = left' := by
  cases h with
  | document hd =>
    cases h' with
    | document hd' => exact ⟨by rw [Except.ok.inj (hd.symm.trans hd')], rfl⟩
    | skipped he _ => cases hd.symm.trans he
  | skipped he _ =>
    cases h' with
    | document hd => cases he.symm.trans hd
    | skipped he' _ => cases he.symm.trans he'; exact ⟨rfl, rfl⟩

end Sitewright.Site
