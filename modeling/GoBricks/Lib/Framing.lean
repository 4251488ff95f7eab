import GoBricks.Lib.Utf8
import Mathlib.Data.List.Basic

/-!
# Bytes that are written one after another

Values are written to a stream with nothing between them. What was written can be told from the
stream exactly if the **layout** is known: how many things there are and how long each is. `Framed`
says so of a function that writes, and of what it **covers** of a value; it is kept by writing two
things after each other and by writing the elements of a list.
-/

/-- The layout of a value and the bytes that are written of it tell exactly what is covered. -/
structure Framed {R L C : Type} (write : R → Bytes) (layout : R → L) (covered : R → C) : Prop where
  length_eq : ∀ {r r'}, layout r = layout r' → (write r).length = (write r').length
  covered_iff : ∀ {r r'}, covered r = covered r' ↔ layout r = layout r' ∧ write r = write r'

namespace Framed

variable {R S L L' C C' : Type} {write write' : R → Bytes} {layout : R → L} {layout' : R → L'}
  {covered : R → C} {covered' : R → C'}

/-- A text, of which the length is the layout. -/
theorem text (f : R → Bytes) : Framed f (fun r ↦ (f r).length) f :=
  ⟨id, fun h ↦ ⟨congrArg List.length h, h⟩, And.right⟩

/-- What is always of one length needs no layout. -/
theorem fixed {n : ℕ} (hlength : ∀ r, (write r).length = n)
    (hwrite : ∀ {r r'}, covered r = covered r' ↔ write r = write r') :
    Framed write (fun _ ↦ ()) covered :=
  ⟨fun _ ↦ (hlength _).trans (hlength _).symm, fun {_ _} ↦ by rw [hwrite, eq_self, true_and]⟩

/-- Two things that are written after each other. -/
theorem append (h : Framed write layout covered) (h' : Framed write' layout' covered') :
    Framed (fun r ↦ write r ++ write' r) (fun r ↦ (layout r, layout' r))
      fun r ↦ (covered r, covered' r) := by
  refine ⟨fun hlayout ↦ ?_, fun {r r'} ↦ ?_⟩
  · rw [List.length_append, List.length_append, h.length_eq (congrArg Prod.fst hlayout),
      h'.length_eq (congrArg Prod.snd hlayout)]
  · rw [Prod.mk.injEq, Prod.mk.injEq, h.covered_iff, h'.covered_iff]
    constructor
    · rintro ⟨⟨hlayout, hwrite⟩, hlayout', hwrite'⟩
      exact ⟨⟨hlayout, hlayout'⟩, by rw [hwrite, hwrite']⟩
    · rintro ⟨⟨hlayout, hlayout'⟩, hwrite⟩
      obtain ⟨hfirst, hsecond⟩ := List.append_inj hwrite (h.length_eq hlayout)
      exact ⟨⟨hlayout, hfirst⟩, hlayout', hsecond⟩

/-- The elements of a list, written one after another. -/
theorem list (h : Framed write layout covered) :
    Framed (fun l : List R ↦ l.flatMap write) (fun l ↦ l.map layout) fun l ↦ l.map covered := by
  have hlength {l l' : List R} (hlayout : l.map layout = l'.map layout) :
      (l.flatMap write).length = (l'.flatMap write).length := by
    induction l generalizing l' with
    | nil => rw [List.map_eq_nil_iff.1 hlayout.symm]
    | cons r l ih =>
      cases l' with
      | nil => cases hlayout
      | cons r' l' =>
        obtain ⟨hhead, htail⟩ := List.cons.inj hlayout
        rw [List.flatMap_cons, List.flatMap_cons, List.length_append, List.length_append,
          h.length_eq hhead, ih htail]
  refine ⟨hlength, fun {l l'} ↦ ?_⟩
  induction l generalizing l' with
  | nil =>
    cases l' <;> simp
  | cons r l ih =>
    cases l' with
    | nil => simp
    | cons r' l' =>
      simp only [List.map_cons, List.cons.injEq, List.flatMap_cons, h.covered_iff, ih]
      constructor
      · rintro ⟨⟨hlayout, hwrite⟩, hlayouts, hwrites⟩
        exact ⟨⟨hlayout, hlayouts⟩, by rw [hwrite, hwrites]⟩
      · rintro ⟨⟨hlayout, hlayouts⟩, hwrite⟩
        obtain ⟨hfirst, hrest⟩ := List.append_inj hwrite (h.length_eq hlayout)
        exact ⟨⟨hlayout, hfirst⟩, hlayouts, hrest⟩

/-- A part of a value. -/
theorem comp (h : Framed write layout covered) (f : S → R) :
    Framed (fun s ↦ write (f s)) (fun s ↦ layout (f s)) fun s ↦ covered (f s) :=
  ⟨h.length_eq, h.covered_iff⟩

/-- Another form of the layout and of what is covered. -/
theorem congr (h : Framed write layout covered)
    (hlayout : ∀ {r r'}, layout' r = layout' r' ↔ layout r = layout r')
    (hcovered : ∀ {r r'}, covered' r = covered' r' ↔ covered r = covered r') :
    Framed write layout' covered' :=
  ⟨fun hr ↦ h.length_eq (hlayout.1 hr), fun {_ _} ↦ by rw [hcovered, hlayout, h.covered_iff]⟩

end Framed
