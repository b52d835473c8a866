import Parley.Proofs.Endings
import Parley.Proofs.Failures
import Parley.Proofs.Loading

/-!
# Conditions that cannot be judged

The level that a condition asks for is read when a conversation is built, and again when the
condition is judged. So in built conversations no level is found malformed any more, and a session
is only ever stopped by a condition on an item that does not exist, when it begins.
-/

namespace Parley

theorem Condition.holds_eq_error_iff {condition : Condition} {parameter : String}
    {item? : ItemLookup} {npc : Npc} {player : Player} {error : ConditionError} :
    condition.holds parameter item? npc player = .error error ↔
      (condition = .level ∧ Decimal.int32? parameter.toList = none ∧
        error = .malformedLevel parameter) ∨
      condition = .item ∧ item? parameter = none ∧ error = .unknownItem parameter := by
  cases condition with
  | unconditional | ally | enemy => simp [holds]
  | level => cases hlevel : Decimal.int32? parameter.toList <;> simp [holds, hlevel, eq_comm]
  | item => cases hitem : item? parameter <;> simp [holds, hitem, eq_comm]

/-- A level that the line asks for can be read. -/
def Line.Readable (line : Line) : Prop :=
  line.condition = .level → Decimal.int32? line.parameter.toList ≠ none

theorem Line.Readable.holds_eq_error_iff {line : Line} (h : line.Readable) {item? : ItemLookup}
    {npc : Npc} {player : Player} {error : ConditionError} :
    line.holds item? npc player = .error error ↔
      line.condition = .item ∧ item? line.parameter = none ∧
        error = .unknownItem line.parameter := by
  rw [Line.holds, Condition.holds_eq_error_iff]
  refine or_iff_right ?_
  rintro ⟨hcondition, hnone, -⟩
  exact h hcondition hnone

theorem Conversation.readable_of_build {records : Array Record} {lines : List Line}
    (h : build records = .ok lines) : ∀ line ∈ lines, line.Readable := by
  intro line hmem
  obtain ⟨root, -, hline⟩ := Walk.exists_mem_of_forall₂ (build_eq_ok_iff.mp h) hmem
  obtain ⟨-, hassemble⟩ := resolve_eq_ok_iff.mp hline
  obtain ⟨-, -, -, -, hlevel⟩ := assemble_eq_ok_iff.mp hassemble
  exact hlevel

namespace Registry

/-- Every conversation of the registry was built, when a document was loaded or before it was
inserted. -/
inductive Built : Registry → Prop
  | empty : Built empty
  | loaded {text : List Char} {registry : Registry} (htext : ofText text = .ok registry) :
    Built registry
  | inserted {registry : Registry} {records : Array Record} {lines : List Line} (name : String)
    (hbuilt : Built registry) (hlines : Conversation.build records = .ok lines) :
    Built (registry.insert name lines)

theorem Gives.readable {registry : Registry} {npcs : List Json.Member} (h : registry.Gives npcs)
    (name : String) : ∀ line ∈ registry.entries name, line.Readable := by
  by_cases hlines : ∃ lines, Tells npcs name lines
  · obtain ⟨lines, htells⟩ := hlines
    rw [h.entries_eq name lines htells]
    obtain ⟨-, -, records, -, -, -, hbuild⟩ := htells
    exact Conversation.readable_of_build hbuild
  · rw [h.entries_nil name hlines]
    exact fun _ hmem => absurd hmem List.not_mem_nil

theorem Built.readable {registry : Registry} (h : registry.Built) (name : String) :
    ∀ line ∈ registry.entries name, line.Readable := by
  induction h with
  | empty => simp
  | @loaded text registry htext =>
    rcases ofText_cases text with ⟨-, herror⟩ | ⟨-, -, -, herror⟩ | ⟨npcs, found, -, hfound, hgives⟩
    · cases htext.symm.trans herror
    · cases htext.symm.trans herror
    · obtain rfl := Except.ok.inj (htext.symm.trans hfound)
      exact hgives.readable name
  | inserted key _ hlines ih =>
    rw [entries_insert]
    split
    · exact Conversation.readable_of_build hlines
    · exact ih

end Registry

namespace Session

variable {σ τ : Type}

/-- The choice of an entry fails at the first line that does not turn out false, if that line cannot
be judged. -/
theorem choose_eq_error_iff {item? : ItemLookup} {npc : Npc} {player : Player}
    {lines : List Line} {error : ConditionError} :
    choose item? npc player lines = .error error ↔
      ∃ front line back, lines = front ++ line :: back ∧
        line.holds item? npc player = .error error ∧
        ∀ earlier ∈ front, earlier.holds item? npc player = .ok false := by
  induction lines with
  | nil => simp [choose]
  | cons line rest ih =>
    rw [choose]
    constructor
    · intro h
      split at h
      · next hline =>
        obtain rfl := Except.error.inj h
        exact ⟨[], line, rest, rfl, hline, by simp⟩
      · cases h
      · next hline =>
        obtain ⟨front, blocked, back, rfl, hblocked, hfront⟩ := ih.mp h
        exact ⟨line :: front, blocked, back, rfl, hblocked,
          List.forall_mem_cons.mpr ⟨hline, hfront⟩⟩
    · rintro ⟨front, blocked, back, hlines, hblocked, hfront⟩
      cases front with
      | nil =>
        obtain ⟨rfl, rfl⟩ := List.cons.inj hlines
        rw [hblocked]
      | cons first front =>
        obtain ⟨rfl, rfl⟩ := List.cons.inj hlines
        obtain ⟨hline, hfront⟩ := List.forall_mem_cons.mp hfront
        rw [hline]
        exact ih.mpr ⟨front, blocked, back, rfl, hblocked, hfront⟩

theorem choose_eq_error_iff_of_readable {item? : ItemLookup} {npc : Npc} {player : Player}
    {lines : List Line} (h : ∀ line ∈ lines, line.Readable) {error : ConditionError} :
    choose item? npc player lines = .error error ↔
      ∃ item, error = .unknownItem item ∧
        ∃ front line back, lines = front ++ line :: back ∧
          line.condition = .item ∧ line.parameter = item ∧ item? item = none ∧
          ∀ earlier ∈ front, earlier.holds item? npc player = .ok false := by
  rw [choose_eq_error_iff]
  constructor
  · rintro ⟨front, line, back, rfl, hline, hfront⟩
    have hreadable := h line (List.mem_append_right front List.mem_cons_self)
    obtain ⟨hcondition, hnone, rfl⟩ := hreadable.holds_eq_error_iff.mp hline
    exact ⟨_, rfl, front, line, back, rfl, hcondition, rfl, hnone, hfront⟩
  · rintro ⟨item, rfl, front, line, back, rfl, hcondition, rfl, hnone, hfront⟩
    have hreadable := h line (List.mem_append_right front List.mem_cons_self)
    refine ⟨front, line, back, rfl, ?_, hfront⟩
    exact hreadable.holds_eq_error_iff.mpr ⟨hcondition, hnone, rfl⟩

variable {collaborators : Collaborators σ}

theorem begin_result_eq_condition_iff {session : Session} {world : World σ}
    {error : ConditionError} :
    (session.begin collaborators world).result = .error (.condition error) ↔
      session.phase = .selectingEntry ∧
        choose world.item? session.npc world.player session.entries = .error error := by
  rw [← Move.turn_begin]
  constructor
  · intro h
    exact (reason_of_error collaborators session world .begin h).1.2
  · rintro ⟨hphase, hchoice⟩
    exact error_of_reason collaborators session world .begin ⟨rfl, hphase, hchoice⟩

theorem advance_result_ne_condition (session : Session) (world : World σ) (selection : Selection)
    (error : ConditionError) :
    (session.advance collaborators world selection).result ≠ .error (.condition error) := by
  intro h
  obtain ⟨⟨hmove, -⟩, -⟩ := reason_of_error collaborators session world (.advance selection) h
  cases hmove

theorem converse_result_ne_condition (answers : AnswerSource τ) (session : Session)
    (world : World σ) (source : τ) (error : ConditionError) :
    (converse collaborators answers session world source).1.result ≠
      .error (.condition error) := by
  fun_induction converse collaborators answers session world source with
  | case1 session world => exact advance_result_ne_condition session _ _ error
  | case2 _ _ _ _ _ _ _ _ ih => exact ih
  | case3 => simp

/-- The call begins the session, if that has not been done. -/
def Operation.opens : Operation → Bool
  | begin | run _ _ => true
  | advance _ | cancel => false

/-- A condition is only found impossible to judge when the session begins. -/
theorem turn_eq_begin_of_condition {session : Session} {world : World σ} {operation : Operation}
    {error : ConditionError}
    (h : (operation.turn collaborators session world).result = .error (.condition error)) :
    operation.opens ∧ operation.turn collaborators session world =
      session.begin collaborators world := by
  cases operation with
  | begin => exact ⟨rfl, rfl⟩
  | advance selection => exact absurd h (advance_result_ne_condition session world selection error)
  | cancel => cases h
  | run answers source =>
    -- Past its beginning a run only advances, and an advance judges no condition.
    refine ⟨rfl, ?_⟩
    rw [Operation.turn] at h ⊢
    by_cases hphase : session.phase = .selectingEntry
    · simp only [run, hphase] at h ⊢
      split at h
      · rfl
      · exact absurd h (converse_result_ne_condition _ _ _ _ error)
    · rw [run_resumes hphase] at h
      exact absurd h (converse_result_ne_condition _ _ _ _ error)

theorem turn_eq_begin_of_opens {session : Session} {world : World σ} {operation : Operation}
    (hopens : operation.opens) (hphase : session.phase = .selectingEntry) {error : SessionError}
    (h : (session.begin collaborators world).result = .error error) :
    operation.turn collaborators session world = session.begin collaborators world := by
  cases operation with
  | begin => rfl
  | run answers source => simp only [Operation.turn, run, hphase, h]
  | advance | cancel => cases hopens

theorem turn_result_eq_condition_iff {session : Session} {world : World σ}
    {operation : Operation} {error : ConditionError} :
    (operation.turn collaborators session world).result = .error (.condition error) ↔
      operation.opens ∧ session.phase = .selectingEntry ∧
        choose world.item? session.npc world.player session.entries = .error error := by
  constructor
  · intro h
    obtain ⟨hopens, hturn⟩ := turn_eq_begin_of_condition h
    rw [hturn] at h
    exact ⟨hopens, begin_result_eq_condition_iff.mp h⟩
  · rintro ⟨hopens, hchoice⟩
    have hbegin : (session.begin collaborators world).result = .error (.condition error) :=
      begin_result_eq_condition_iff.mpr hchoice
    rw [turn_eq_begin_of_opens hopens hchoice.1 hbegin, hbegin]

theorem kept_npc (collaborators : Collaborators σ) (npc : Npc) :
    Kept collaborators fun session => session.npc = npc where
  begin := by
    rintro session world rfl
    rw [begin]
    split
    · split
      · rfl
      · rfl
      · exact npc_deliver ..
    · rfl
  advance := by
    rintro session world selection rfl
    rw [advance]
    split
    · rfl
    · rfl
    · split
      · rfl
      · split
        · exact npc_deliver ..
        · rfl
  cancel := fun _ h => h

/-- With built conversations, no call finds a level malformed. A call only fails over a condition
when it begins the session, and just when the first entry that does not turn out false is one for an
item that does not exist. -/
theorem sessions_stop_at_unknown_items (collaborators : Collaborators σ) {registry : Registry}
    (h : registry.Built) (npc : Npc) (before : World σ) (operations : List Operation)
    (world : World σ) (operation : Operation) :
    let session := (callAll collaborators (new registry npc) before operations).1
    let turn := operation.turn collaborators session world
    (∀ parameter, turn.result ≠ .error (.condition (.malformedLevel parameter))) ∧
      (∀ error, turn.result = .error (.condition error) →
        turn = session.begin collaborators world) ∧
      ∀ item, turn.result = .error (.condition (.unknownItem item)) ↔
        operation.opens ∧ session.phase = .selectingEntry ∧
          ∃ front line back, registry.entries npc.name = front ++ line :: back ∧
            line.condition = .item ∧ line.parameter = item ∧ world.item? item = none ∧
            ∀ earlier ∈ front, earlier.holds world.item? npc world.player = .ok false := by
  intro session turn
  have hsound := (kept_sound collaborators _).callAll before operations (sound_new registry npc)
  have hentries : session.entries = registry.entries npc.name := hsound.entries_eq
  have hnpc : session.npc = npc := (kept_npc collaborators npc).callAll before operations rfl
  have hreadable : ∀ line ∈ session.entries, line.Readable := by
    rw [hentries]
    exact h.readable npc.name
  refine ⟨fun parameter herror => ?_, fun error herror => ?_, fun item => ?_⟩
  · obtain ⟨-, -, hchoice⟩ := turn_result_eq_condition_iff.mp herror
    obtain ⟨item, hitem, -⟩ := (choose_eq_error_iff_of_readable hreadable).mp hchoice
    cases hitem
  · exact (turn_eq_begin_of_condition herror).2
  · rw [← hentries, ← hnpc, turn_result_eq_condition_iff,
      choose_eq_error_iff_of_readable hreadable]
    simp only [ConditionError.unknownItem.injEq, exists_eq_left']

/-- The player is below the level that the first entry asks for, and there is no lamp. -/
def outpost : World Script :=
  { Walk.encampment with player := { Walk.encampment.player with level := 4 } }

theorem outpost_stopped :
    ∃ lines, Conversation.build Conversation.crossroads = .ok lines ∧
      let registry := Registry.empty.insert Walk.guard.name lines
      let session := (callAll Script.collaborators (new registry Walk.guard) Walk.encampment
        [.advance .leave]).1
      registry.Built ∧
        (session.begin Script.collaborators outpost).result =
          .error (.condition (.unknownItem "lamp")) ∧
        ∃ front line back, registry.entries Walk.guard.name = front ++ line :: back ∧
          line.condition = .item ∧ line.parameter = "lamp" ∧ outpost.item? "lamp" = none ∧
          ∀ earlier ∈ front,
            earlier.holds outpost.item? Walk.guard outpost.player = .ok false := by
  let lines := [Conversation.parting, Conversation.farewell]
  have hlines : Conversation.build Conversation.crossroads = .ok lines :=
    Conversation.build_crossroads
  have hbuilt := Registry.Built.inserted Walk.guard.name .empty hlines
  have hstop : (begin Script.collaborators (callAll Script.collaborators
      (new (Registry.empty.insert Walk.guard.name lines) Walk.guard) Walk.encampment
        [.advance .leave]).1 outpost).result = .error (.condition (.unknownItem "lamp")) := by
    decide +kernel
  obtain ⟨-, -, hitem⟩ := sessions_stop_at_unknown_items Script.collaborators hbuilt Walk.guard
    Walk.encampment [.advance .leave] outpost .begin
  obtain ⟨-, -, hblocked⟩ := (hitem "lamp").mp hstop
  exact ⟨lines, hlines, hbuilt, hstop, hblocked⟩

end Session

end Parley
