import Parley.World.Basic
import Mathlib.Data.List.Infix

/-!
# Names in notices

A notice is made up of pieces without the marker, with one marker between each and the next, and it
is so in one way only: no marker overlaps another, or a piece next to it. Announcing an attack
puts the name in the place of every marker and changes nothing else.
-/

namespace Parley

namespace Template

/-- The pieces have no marker in them, and with a marker between each and the next they make up the
template. -/
structure IsSplit (template : List Char) (split : List (List Char)) : Prop where
  ne_nil : split ≠ []
  free : ∀ piece ∈ split, ¬marker <:+: piece
  joined : marker.intercalate split = template

def pieces (template : List Char) : List (List Char) :=
  match template with
  | [] => [[]]
  | c :: rest =>
    if marker.isPrefixOf (c :: rest) then [] :: pieces (rest.drop (marker.length - 1))
    else (pieces rest).modifyHead (c :: ·)
termination_by template.length

theorem pieces_nil : pieces [] = [[]] := by
  rw [pieces]

theorem pieces_marker_append (rest : List Char) : pieces (marker ++ rest) = [] :: pieces rest := by
  rw [marker, List.cons_append, pieces]
  rfl

theorem pieces_cons {c : Char} {rest : List Char} (h : ¬marker <+: c :: rest) :
    pieces (c :: rest) = (pieces rest).modifyHead (c :: ·) := by
  rw [pieces, if_neg (mt List.isPrefixOf_iff_prefix.mp h)]

theorem pieces_ne_nil (template : List Char) : pieces template ≠ [] := by
  fun_induction pieces template with
  | case1 => exact List.cons_ne_nil _ _
  | case2 => exact List.cons_ne_nil _ _
  | case3 c rest _ ih => simpa using ih

theorem intercalate_modifyHead_cons {α : Type} (separator : List α) (x : α)
    {xss : List (List α)} (h : xss ≠ []) :
    separator.intercalate (xss.modifyHead (x :: ·)) = x :: separator.intercalate xss := by
  match xss with
  | [] => exact absurd rfl h
  | [xs] => simp
  | xs :: ys :: rest => simp

theorem fill_eq_intercalate (name template : List Char) :
    fill name template = name.intercalate (pieces template) := by
  fun_induction pieces template with
  | case1 => rw [fill, List.intercalate_singleton]
  | case2 c rest hmarker ih =>
    rw [fill, if_pos hmarker, ih, List.intercalate_cons_of_ne_nil (pieces_ne_nil _),
      List.nil_append]
  | case3 c rest hmarker ih =>
    rw [fill, if_neg hmarker, ih, intercalate_modifyHead_cons name c (pieces_ne_nil rest)]

theorem isSplit_nil : IsSplit [] [[]] :=
  ⟨List.cons_ne_nil _ _, by simp [marker], rfl⟩

theorem IsSplit.marker_append {rest : List Char} {split : List (List Char)}
    (h : IsSplit rest split) : IsSplit (marker ++ rest) ([] :: split) := by
  refine ⟨List.cons_ne_nil _ _, List.forall_mem_cons.mpr ⟨by simp [marker], h.free⟩, ?_⟩
  rw [List.intercalate_cons_of_ne_nil h.ne_nil, h.joined]
  rfl

theorem IsSplit.cons {c : Char} {rest : List Char} {split : List (List Char)}
    (h : IsSplit rest split) (hmarker : ¬marker <+: c :: rest) :
    IsSplit (c :: rest) (split.modifyHead (c :: ·)) := by
  obtain ⟨hne, hfree, hjoined⟩ := h
  cases split with
  | nil => exact absurd rfl hne
  | cons piece later =>
    obtain ⟨hpiece, hlater⟩ := List.forall_mem_cons.mp hfree
    have hbegins : c :: piece <+: c :: rest := by
      rw [List.cons_prefix_cons, ← hjoined]
      exact ⟨rfl, by cases later <;> simp⟩
    refine ⟨List.cons_ne_nil _ _, List.forall_mem_cons.mpr ⟨?_, hlater⟩, ?_⟩
    · -- A marker in the longer piece is in the old one, or it begins at the new character.
      rw [List.infix_cons_iff]
      rintro (hhere | hwithin)
      · exact hmarker (hhere.trans hbegins)
      · exact hpiece hwithin
    · rw [intercalate_modifyHead_cons marker c hne, hjoined]

theorem isSplit_pieces (template : List Char) : IsSplit template (pieces template) := by
  fun_induction pieces template with
  | case1 => exact isSplit_nil
  | case2 c rest hmarker ih =>
    obtain ⟨after, hafter⟩ := List.isPrefixOf_iff_prefix.mp hmarker
    obtain ⟨rfl, rfl⟩ := List.cons.inj hafter
    exact ih.marker_append
  | case3 c rest hmarker ih => exact ih.cons (mt List.isPrefixOf_iff_prefix.mpr hmarker)

/-- No marker begins inside a piece without one: it could only run on into the marker behind the
piece, and the character that opens a marker comes nowhere else in it. -/
theorem no_marker_begins {c : Char} {piece rest : List Char} (hfree : ¬marker <:+: c :: piece)
    (hrest : rest = [] ∨ marker <+: rest) : ¬marker <+: c :: (piece ++ rest) := by
  intro hmarker
  have hpiece : c :: piece <+: c :: (piece ++ rest) := List.prefix_append (c :: piece) rest
  rcases List.prefix_or_prefix_of_prefix hmarker hpiece with hwithin | ⟨tail, htail⟩
  · exact hfree hwithin.isInfix
  · rw [← htail, ← List.cons_append, List.prefix_append_right_inj] at hmarker
    cases tail with
    | nil => exact hfree (htail ▸ by simp)
    | cons first others =>
      rcases hrest with rfl | hrest
      · simp at hmarker
      · have hfirst : first = '\x7b' := by
          obtain ⟨after, rfl⟩ := hrest
          rw [marker, List.cons_append, List.cons_prefix_cons] at hmarker
          exact hmarker.1
        have htail : piece ++ first :: others = ['n', 'p', 'c', '\x7d'] :=
          (List.cons.inj htail).2
        have hmem : '\x7b' ∈ ['n', 'p', 'c', '\x7d'] := by
          rw [← htail, ← hfirst]
          simp
        exact absurd hmem (by decide)

theorem pieces_append {piece rest : List Char} (hfree : ¬marker <:+: piece)
    (hrest : rest = [] ∨ marker <+: rest) :
    pieces (piece ++ rest) = (pieces rest).modifyHead (piece ++ ·) := by
  induction piece with
  | nil => exact (congrFun List.modifyHead_id (pieces rest)).symm
  | cons c piece ih =>
    have hlater : ¬marker <:+: piece := fun h => hfree (List.infix_cons h)
    rw [List.cons_append, pieces_cons (no_marker_begins hfree hrest), ih hlater,
      List.modifyHead_modifyHead]
    rfl

theorem IsSplit.eq_pieces {template : List Char} {split : List (List Char)}
    (h : IsSplit template split) : split = pieces template := by
  induction split generalizing template with
  | nil => exact absurd rfl h.ne_nil
  | cons piece later ih =>
    obtain ⟨-, hfree, rfl⟩ := h
    obtain ⟨hpiece, hlater⟩ := List.forall_mem_cons.mp hfree
    cases later with
    | nil =>
      have hsingle := pieces_append hpiece (.inl rfl)
      rw [List.append_nil] at hsingle
      rw [List.intercalate_singleton, hsingle, pieces_nil]
      simp
    | cons next others =>
      have hrest := ih ⟨List.cons_ne_nil _ _, hlater, rfl⟩
      rw [List.intercalate_cons_cons, List.append_assoc,
        pieces_append hpiece (.inr (List.prefix_append _ _)), pieces_marker_append, ← hrest]
      simp

theorem isSplit_iff {template : List Char} {split : List (List Char)} :
    IsSplit template split ↔ split = pieces template :=
  ⟨IsSplit.eq_pieces, fun h => h ▸ isSplit_pieces template⟩

end Template

namespace World

variable {σ : Type}

theorem hostility_of_isSplit (world : World σ) {split : List String}
    (h : Template.IsSplit world.notice.toList (split.map String.toList)) (npc : Npc) :
    world.hostility npc = npc.name.intercalate split := by
  rw [hostility, Template.fill_eq_intercalate, ← h.eq_pieces, ← String.toList_intercalate,
    String.ofList_toList]

theorem intercalate_empty (texts : List String) : "".intercalate texts = String.join texts := by
  rw [← String.toList_inj, String.toList_join]
  induction texts with
  | nil => simp
  | cons text rest ih => cases rest <;> simp_all

theorem hostility_of_empty (world : World σ) {split : List String}
    (h : Template.IsSplit world.notice.toList (split.map String.toList)) (npc : Npc) :
    world.hostility { npc with name := "" } = String.join split := by
  rw [hostility_of_isSplit world h]
  exact intercalate_empty split

theorem messages_attack (collaborators : Collaborators σ) (world : World σ) (npc : Npc) :
    (world.act collaborators npc .attack).1.messages.toList =
      world.messages.toList ++ [world.hostility npc] :=
  Messages.toList_offer world.messages (world.hostility npc)

/-- The notice splits in one way only into pieces with a marker between each and the next. When an
NPC attacks, its name stands between the pieces instead. An empty name leaves the pieces alone, and
a marker in the name is kept, as is what is left of one in the notice. -/
theorem attack_names_the_npc (collaborators : Collaborators σ) (world : World σ) (npc : Npc) :
    ∃ pieces : List String,
      (∀ split : List String,
        Template.IsSplit world.notice.toList (split.map String.toList) ↔ split = pieces) ∧
      (world.act collaborators npc .attack).1.messages.toList =
        world.messages.toList ++ [npc.name.intercalate pieces] ∧
      world.hostility { npc with name := String.ofList Template.marker } = world.notice ∧
      world.hostility { npc with name := "" } = String.join pieces ∧
      hostility { world with notice := "\x7b\x7bnpc\x7d" } npc = "\x7b" ++ npc.name ∧
      hostility { world with notice := "\x7bnpc\x7bnpc\x7d\x7d" } npc =
        "\x7bnpc" ++ npc.name ++ "\x7d" := by
  let pieces := (Template.pieces world.notice.toList).map String.ofList
  have hpieces : pieces.map String.toList = Template.pieces world.notice.toList := by
    simp [pieces, Function.comp_def]
  have hsplit : Template.IsSplit world.notice.toList (pieces.map String.toList) :=
    Template.isSplit_iff.mpr hpieces
  refine ⟨pieces, fun split => ?_, ?_, ?_, hostility_of_empty world hsplit npc, ?_, ?_⟩
  · rw [Template.isSplit_iff, ← hpieces]
    exact List.map_inj_right fun _ _ => String.toList_injective
  · rw [messages_attack, hostility_of_isSplit world hsplit]
  · rw [hostility_of_isSplit world hsplit, ← String.toList_inj, String.toList_intercalate,
      String.toList_ofList]
    exact hsplit.joined
  · have hpartial : Template.IsSplit "\x7b\x7bnpc\x7d".toList (["\x7b", ""].map String.toList) :=
      ⟨by decide, by decide, by decide⟩
    rw [hostility_of_isSplit { world with notice := _ } hpartial]
    simp
  · have hnested : Template.IsSplit "\x7bnpc\x7bnpc\x7d\x7d".toList
        (["\x7bnpc", "\x7d"].map String.toList) :=
      ⟨by decide, by decide, by decide⟩
    rw [hostility_of_isSplit { world with notice := _ } hnested]
    simp

end World

end Parley
