import Parley.Proofs.Acceptance
import Parley.Proofs.Passes
import Mathlib.Data.Fintype.Card

/-!
# How many passes a build takes

A pass takes up a record or assembles one, unless it is the last. No record is taken up or assembled
twice, not even from different entries, since it is marked the first time. So a build takes at most
two passes for each record, along however many paths the records lead to each other.
-/

namespace Parley.Conversation

section Spending

variable {size : Nat} {before between after : Fin size → Prop} {spent later : List (Fin size)}

/-- The records in the list are available before, and not any more after. None comes twice, and none
becomes available. -/
structure Spends (before : Fin size → Prop) (spent : List (Fin size)) (after : Fin size → Prop) :
    Prop where
  nodup : spent.Nodup
  available : ∀ index ∈ spent, before index
  kept : ∀ index, after index → before index ∧ index ∉ spent

theorem spends_nil (h : ∀ index, after index → before index) : Spends before [] after :=
  ⟨List.nodup_nil, List.forall_mem_nil _, fun index hafter => ⟨h index hafter, List.not_mem_nil⟩⟩

theorem spends_singleton {index : Fin size} (hbefore : before index)
    (hafter : ∀ other, after other → before other ∧ other ≠ index) :
    Spends before [index] after :=
  ⟨List.nodup_singleton index, List.forall_mem_singleton.mpr hbefore,
    fun other h => ⟨(hafter other h).1, by simpa using (hafter other h).2⟩⟩

theorem Spends.append (h : Spends before spent between) (hlater : Spends between later after) :
    Spends before (spent ++ later) after where
  nodup := by
    refine List.nodup_append.mpr ⟨h.nodup, hlater.nodup, fun index hindex other hother heq => ?_⟩
    subst heq
    exact (h.kept index (hlater.available index hother)).2 hindex
  available := by
    intro index hindex
    rcases List.mem_append.mp hindex with hspent | hspent
    · exact h.available index hspent
    · exact (h.kept index (hlater.available index hspent)).1
  kept := by
    intro index hafter
    obtain ⟨hbetween, hlater⟩ := hlater.kept index hafter
    obtain ⟨hbefore, hspent⟩ := h.kept index hbetween
    exact ⟨hbefore, by simp [hspent, hlater]⟩

end Spending

variable {records : Array Record}

/-- The record that a pass takes up, if it does. -/
def Work.taken (records : Array Record) (work : Work records.size) : List (Fin records.size) :=
  match work.outlook records with
  | .unbuilt response => [response]
  | _ => []

/-- The record that a pass assembles, if it does. -/
def Work.assembled (records : Array Record) (work : Work records.size) :
    List (Fin records.size) :=
  match work.outlook records with
  | .ready _ => [work.top]
  | _ => []

def Visit.taken (records : Array Record) (visit : Visit records.size) : List (Fin records.size) :=
  visit.work?.toList.flatMap fun work =>
    work.top :: (passesFrom records work).flatMap (Work.taken records)

def Visit.assembled (records : Array Record) (visit : Visit records.size) :
    List (Fin records.size) :=
  visit.work?.toList.flatMap fun work => (passesFrom records work).flatMap (Work.assembled records)

/-- The records that a build takes up, over all its entries. -/
def buildTaken (records : Array Record) : List (Fin records.size) :=
  (buildVisits records).flatMap (Visit.taken records)

def buildAssembled (records : Array Record) : List (Fin records.size) :=
  (buildVisits records).flatMap (Visit.assembled records)

/-- The records in whose slots something holds. -/
def Within {size : Nat} (P : Slot → Prop) (memo : Memo size) (index : Fin size) : Prop :=
  P (memo.get index)

/-- The records in whose slots something still holds after a pass. After an error there are none,
since the memo is not used any more. -/
def WithinProgress {size : Nat} (P : Slot → Prop) :
    Except BuildError (Progress size) → Fin size → Prop
  | .ok (.ongoing next) => Within P next.memo
  | .ok (.finished memo _) => Within P memo
  | .error _ => fun _ => False

def WithinResult {size : Nat} (P : Slot → Prop) :
    Except BuildError (Memo size × Line) → Fin size → Prop
  | .ok (memo, _) => Within P memo
  | .error _ => fun _ => False

def Untaken (slot : Slot) : Prop :=
  slot = .untouched

def Unfinished (slot : Slot) : Prop :=
  ∀ line, slot ≠ .built line

section Slots

variable {size : Nat} {P : Slot → Prop} {memo : Memo size} {index : Fin size} {slot : Slot}

theorem within_set_iff {other : Fin size} :
    Within P (memo.set index slot index.isLt) other ↔
      if other = index then P slot else Within P memo other := by
  split
  · next heq => rw [heq, Within, get_set_self]
  · next hne => rw [Within, get_set_of_ne memo slot hne, Within]

theorem spends_set (hbefore : P (memo.get index)) (hslot : ¬P slot) :
    Spends (Within P memo) [index] (Within P (memo.set index slot index.isLt)) := by
  refine spends_singleton hbefore fun other hafter => ?_
  rw [within_set_iff] at hafter
  split at hafter
  · exact absurd hafter hslot
  · next hne => exact ⟨hafter, hne⟩

theorem spends_set_nil (hkept : P slot → P (memo.get index)) :
    Spends (Within P memo) [] (Within P (memo.set index slot index.isLt)) := by
  refine spends_nil fun other hafter => ?_
  rw [within_set_iff] at hafter
  split at hafter
  · next heq => exact heq ▸ hkept hafter
  · exact hafter

end Slots

theorem Work.taken_of_unbuilt {work : Work records.size} {response : Fin records.size}
    (h : work.outlook records = .unbuilt response) : work.taken records = [response] := by
  rw [taken, h]

theorem Work.taken_of_ne {work : Work records.size}
    (h : ∀ response, work.outlook records ≠ .unbuilt response) : work.taken records = [] := by
  rw [taken]
  split
  · next response hlook => exact absurd hlook (h response)
  · rfl

theorem Work.assembled_of_ready {work : Work records.size} {lines : List Line}
    (h : work.outlook records = .ready lines) : work.assembled records = [work.top] := by
  rw [assembled, h]

theorem Work.assembled_of_ne {work : Work records.size}
    (h : ∀ lines, work.outlook records ≠ .ready lines) : work.assembled records = [] := by
  rw [assembled]
  split
  · next lines hlook => exact absurd hlook (h lines)
  · rfl

theorem spends_taken (work : Work records.size) :
    Spends (Within Untaken work.memo) (work.taken records)
      (WithinProgress Untaken (pass records work)) := by
  have houtcome := outcome_pass work
  generalize pass records work = result at houtcome ⊢
  cases houtcome with
  | refused hlook =>
    rw [Work.taken_of_ne hlook]
    exact spends_nil fun _ => False.elim
  | started hlook =>
    rw [Work.taken_of_unbuilt hlook]
    exact spends_set (look_unbuilt hlook) (by simp [Untaken])
  | unreadable hready =>
    rw [Work.taken_of_ne (by simp [hready])]
    exact spends_nil fun _ => False.elim
  | resumed hready | finished hready =>
    rw [Work.taken_of_ne (by simp [hready])]
    exact spends_set_nil fun hslot => Slot.noConfusion hslot

theorem spends_assembled {root : Fin records.size} {work : Work records.size}
    (h : work.Sound records root) :
    Spends (Within Unfinished work.memo) (work.assembled records)
      (WithinProgress Unfinished (pass records work)) := by
  have houtcome := outcome_pass work
  generalize pass records work = result at houtcome ⊢
  cases houtcome with
  | refused _ hlook =>
    rw [Work.assembled_of_ne hlook]
    exact spends_nil fun _ => False.elim
  | started hlook =>
    rw [Work.assembled_of_ne (by simp [hlook])]
    refine spends_set_nil fun _ line hslot => ?_
    have huntouched := look_unbuilt hlook
    cases huntouched.symm.trans hslot
  | unreadable hready =>
    rw [Work.assembled_of_ready hready]
    exact spends_singleton h.top_unfinished fun _ => False.elim
  | resumed hready | finished hready =>
    rw [Work.assembled_of_ready hready]
    exact spends_set h.top_unfinished fun hslot => hslot _ rfl

/-- What every pass spends, all of them spend together. -/
theorem spends_passesFrom {P : Slot → Prop}
    {spent : Work records.size → List (Fin records.size)} {root : Fin records.size}
    (hspent : ∀ work : Work records.size, work.Sound records root →
      Spends (Within P work.memo) (spent work) (WithinProgress P (pass records work)))
    {work : Work records.size} (h : work.Sound records root) :
    Spends (Within P work.memo) ((passesFrom records work).flatMap spent)
      (WithinResult P (complete records work)) := by
  induction work using complete.induct records with
  | case1 work _ hpass | case2 work _ _ hpass =>
    have hlast := hspent work h
    rw [hpass] at hlast
    rw [passesFrom_of_last (by simp [hpass]), complete, hpass, List.flatMap_singleton]
    exact hlast
  | case3 work next hpass ih =>
    have hfirst := hspent work h
    rw [hpass] at hfirst
    rw [passesFrom_of_ongoing hpass, complete, hpass, List.flatMap_cons]
    exact hfirst.append (ih (h.ongoing hpass))

theorem spends_visit {P : Slot → Prop} (first : Work records.size → List (Fin records.size))
    {spent : Work records.size → List (Fin records.size)}
    (hfirst : ∀ memo root, memo.get root = .untouched →
      let start := Work.start memo root []
      Spends (Within P memo) (first start) (Within P start.memo))
    (hspent : ∀ root (work : Work records.size), work.Sound records root →
      Spends (Within P work.memo) (spent work) (WithinProgress P (pass records work)))
    {visit : Visit records.size} (h : AtRest records visit.memo) :
    Spends (Within P visit.memo)
      (visit.work?.toList.flatMap fun work => first work ++ (passesFrom records work).flatMap spent)
      (WithinResult P (lineAt records visit.memo visit.root)) := by
  rw [Visit.work?, lineAt_eq]
  cases hslot : visit.memo.get visit.root with
  | built line => exact spends_nil fun _ => id
  | underway => exact spends_nil fun _ => False.elim
  | untouched =>
    obtain ⟨hsound, -⟩ := h.sound_start hslot
    rw [Option.toList_some, List.flatMap_singleton]
    exact (hfirst _ _ hslot).append (spends_passesFrom (hspent visit.root) hsound)

theorem spends_visits (P : Slot → Prop) {spent : Visit records.size → List (Fin records.size)}
    (hspent : ∀ visit : Visit records.size, AtRest records visit.memo →
      Spends (Within P visit.memo) (spent visit)
        (WithinResult P (lineAt records visit.memo visit.root)))
    {memo : Memo records.size} (h : AtRest records memo) (roots : List (Fin records.size)) :
    Spends (Within P memo) ((visits records memo roots).flatMap spent) fun _ => False := by
  induction roots generalizing memo with
  | nil => exact spends_nil fun _ => False.elim
  | cons root rest ih =>
    have hvisit := hspent ⟨memo, root⟩ h
    rw [visits, List.flatMap_cons]
    cases hline : lineAt records memo root with
    | error e =>
      rw [hline] at hvisit
      exact hvisit.append (spends_nil fun _ => False.elim)
    | ok result =>
      obtain ⟨after, line⟩ := result
      rw [hline] at hvisit
      exact hvisit.append (ih (h.of_lineAt hline))

theorem nodup_buildTaken (records : Array Record) : (buildTaken records).Nodup := by
  refine (spends_visits Untaken (fun visit h => ?_) (atRest_blank records) _).nodup
  refine spends_visit (fun work => [work.top]) (fun memo root huntouched => ?_)
    (fun _ work _ => spends_taken work) h
  exact spends_set huntouched (by simp [Untaken])

theorem nodup_buildAssembled (records : Array Record) : (buildAssembled records).Nodup := by
  refine (spends_visits Unfinished (fun visit h => ?_) (atRest_blank records) _).nodup
  refine spends_visit (fun _ => []) (fun memo root huntouched => ?_)
    (fun _ work h => spends_assembled h) h
  refine spends_set_nil fun _ line hslot => ?_
  cases huntouched.symm.trans hslot

theorem length_passesFrom_le (work : Work records.size) :
    (passesFrom records work).length ≤
      ((passesFrom records work).flatMap (Work.taken records)).length +
        ((passesFrom records work).flatMap (Work.assembled records)).length + 1 := by
  induction work using complete.induct records with
  | case1 work _ hpass | case2 work _ _ hpass =>
    rw [passesFrom_of_last (by simp [hpass]), List.length_singleton]
    omega
  | case3 work next hpass ih =>
    -- Only the last pass may do neither, as it may end in an error before it has come to anything.
    have hstep : (work.taken records).length + (work.assembled records).length = 1 := by
      have houtcome := outcome_pass work
      rw [hpass] at houtcome
      cases houtcome with
      | started hlook =>
        rw [Work.taken_of_unbuilt hlook, Work.assembled_of_ne (by simp [hlook])]
        rfl
      | resumed hready =>
        rw [Work.assembled_of_ready hready, Work.taken_of_ne (by simp [hready])]
        rfl
    rw [passesFrom_of_ongoing hpass, List.flatMap_cons, List.flatMap_cons, List.length_append,
      List.length_append, List.length_cons]
    omega

theorem length_passes_le (visit : Visit records.size) :
    (visit.passes records).length ≤
      (visit.taken records).length + (visit.assembled records).length := by
  rw [Visit.passes, Visit.taken, Visit.assembled]
  cases visit.work? with
  | none => exact Nat.zero_le _
  | some work =>
    have hlength := length_passesFrom_le work
    -- The record that the visit itself takes up makes up for the last pass.
    simp only [Option.toList_some, List.flatMap_singleton, List.length_cons]
    omega

theorem length_buildPasses_le (records : Array Record) :
    (buildPasses records).length ≤
      (buildTaken records).length + (buildAssembled records).length := by
  rw [buildPasses, buildTaken, buildAssembled]
  induction buildVisits records with
  | nil => exact Nat.zero_le _
  | cons visit rest ih =>
    have hvisit := length_passes_le visit
    simp only [List.flatMap_cons, List.length_append]
    omega

/-- The line of the outermost record under way and the passes that are left over, if there are
enough of them. -/
def completeWithin (records : Array Record) : Nat → Work records.size →
    Option (Nat × Except BuildError (Memo records.size × Line))
  | 0, _ => none
  | passes + 1, work =>
    match pass records work with
    | .error e => some (passes, .error e)
    | .ok (.finished memo line) => some (passes, .ok (memo, line))
    | .ok (.ongoing next) => completeWithin records passes next

def lineAtWithin (records : Array Record) (passes : Nat) (memo : Memo records.size)
    (index : Fin records.size) : Option (Nat × Except BuildError (Memo records.size × Line)) :=
  match memo.get index with
  | .built line => some (passes, .ok (memo, line))
  | .underway => some (passes, .error (.cyclicResponse index))
  | .untouched => completeWithin records passes (.start memo index [])

def linesAtWithin (records : Array Record) (passes : Nat) (memo : Memo records.size) :
    List (Fin records.size) → Option (Except BuildError (List Line))
  | [] => some (.ok [])
  | index :: rest =>
    match lineAtWithin records passes memo index with
    | none => none
    | some (_, .error e) => some (.error e)
    | some (left, .ok (after, line)) =>
      (linesAtWithin records left after rest).map fun lines => lines.map (line :: ·)

/-- A build that has so many passes, for all its entries together. It has no result if it takes
more. -/
def buildWithin (records : Array Record) (passes : Nat) : Option (Except BuildError (List Line)) :=
  linesAtWithin records passes (blank records.size) (entries records)

theorem completeWithin_add (work : Work records.size) (spare : Nat) :
    completeWithin records ((passesFrom records work).length + spare) work =
      some (spare, complete records work) := by
  induction work using complete.induct records with
  | case1 work _ hpass | case2 work _ _ hpass =>
    rw [passesFrom_of_last (by simp [hpass]), complete, List.length_singleton, Nat.add_comm,
      completeWithin, hpass]
  | case3 work next hpass ih =>
    rw [passesFrom_of_ongoing hpass, complete, List.length_cons, Nat.add_right_comm,
      completeWithin, hpass]
    exact ih

theorem completeWithin_eq_none {work : Work records.size} {passes : Nat}
    (h : passes < (passesFrom records work).length) :
    completeWithin records passes work = none := by
  induction passes generalizing work with
  | zero => rfl
  | succ passes ih =>
    have hongoing : ∃ next, pass records work = .ok (.ongoing next) := by
      by_contra hlast
      rw [passesFrom_of_last (not_exists.mp hlast), List.length_singleton] at h
      omega
    obtain ⟨next, hpass⟩ := hongoing
    rw [passesFrom_of_ongoing hpass, List.length_cons] at h
    rw [completeWithin, hpass]
    exact ih (by omega)

theorem lineAtWithin_add (visit : Visit records.size) (spare : Nat) :
    lineAtWithin records ((visit.passes records).length + spare) visit.memo visit.root =
      some (spare, lineAt records visit.memo visit.root) := by
  rw [lineAtWithin, lineAt_eq, Visit.passes, Visit.work?]
  cases visit.memo.get visit.root with
  | untouched =>
    rw [Option.toList_some, List.flatMap_singleton]
    exact completeWithin_add _ spare
  | underway | built => simp

theorem lineAtWithin_eq_none {visit : Visit records.size} {passes : Nat}
    (h : passes < (visit.passes records).length) :
    lineAtWithin records passes visit.memo visit.root = none := by
  rw [Visit.passes, Visit.work?] at h
  rw [lineAtWithin]
  cases hslot : visit.memo.get visit.root with
  | untouched =>
    rw [hslot, Option.toList_some, List.flatMap_singleton] at h
    exact completeWithin_eq_none h
  | underway | built => simp [hslot] at h

theorem linesAtWithin_of_le {passes : Nat} {memo : Memo records.size}
    {roots : List (Fin records.size)}
    (h : ((visits records memo roots).flatMap (Visit.passes records)).length ≤ passes) :
    linesAtWithin records passes memo roots = some (linesAt records memo roots) := by
  induction roots generalizing memo passes with
  | nil => rfl
  | cons root rest ih =>
    rw [visits, List.flatMap_cons, List.length_append] at h
    obtain ⟨spare, rfl⟩ := Nat.exists_eq_add_of_le (Nat.le_of_add_right_le h)
    rw [linesAtWithin, lineAtWithin_add ⟨memo, root⟩, linesAt]
    cases hline : lineAt records memo root with
    | error e => rfl
    | ok result =>
      obtain ⟨after, line⟩ := result
      rw [hline] at h
      have hrest := ih (Nat.le_of_add_le_add_left h)
      simp only [hrest, Option.map_some]
      change _ = some (linesAt records after rest >>= fun lines => .ok (line :: lines))
      cases linesAt records after rest <;> rfl

theorem linesAtWithin_eq_none {passes : Nat} {memo : Memo records.size}
    {roots : List (Fin records.size)}
    (h : passes < ((visits records memo roots).flatMap (Visit.passes records)).length) :
    linesAtWithin records passes memo roots = none := by
  induction roots generalizing memo passes with
  | nil => simp [visits] at h
  | cons root rest ih =>
    rw [visits, List.flatMap_cons, List.length_append] at h
    rw [linesAtWithin]
    by_cases hfirst : passes < (Visit.passes records ⟨memo, root⟩).length
    · rw [lineAtWithin_eq_none hfirst]
    · obtain ⟨spare, rfl⟩ := Nat.exists_eq_add_of_le (Nat.le_of_not_lt hfirst)
      rw [lineAtWithin_add ⟨memo, root⟩]
      cases hline : lineAt records memo root with
      | error e =>
        rw [hline] at h
        exact absurd h hfirst
      | ok result =>
        obtain ⟨after, line⟩ := result
        rw [hline] at h
        have hrest := ih (Nat.lt_of_add_lt_add_left h)
        simp only [hrest, Option.map_none]

theorem buildWithin_eq_some_iff {passes : Nat} :
    buildWithin records passes = some (build records) ↔ (buildPasses records).length ≤ passes := by
  constructor
  · intro hsome
    by_contra hmore
    have hnone : buildWithin records passes = none := linesAtWithin_eq_none (Nat.lt_of_not_le hmore)
    cases hnone.symm.trans hsome
  · exact linesAtWithin_of_le

/-- A build takes up no record twice and assembles none twice, over all its entries together. So it
ends after at most two passes for each record. -/
theorem records_are_taken_up_once (records : Array Record) :
    (buildTaken records).Nodup ∧ (buildAssembled records).Nodup ∧
      (∀ passes, buildWithin records passes = some (build records) ↔
        (buildPasses records).length ≤ passes) ∧
      (buildPasses records).length ≤ 2 * records.size := by
  have htaken := nodup_buildTaken records
  have hassembled := nodup_buildAssembled records
  refine ⟨htaken, hassembled, fun passes => buildWithin_eq_some_iff, ?_⟩
  have hpasses := length_buildPasses_le records
  have hmost := htaken.length_le_card
  have hmost' := hassembled.length_le_card
  rw [Fintype.card_fin] at hmost hmost'
  omega

example : (buildPasses crossroads).length = 7 := by
  decide +kernel

end Parley.Conversation
