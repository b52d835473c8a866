import Parley.Proofs.Acceptance
import Parley.Session
import Parley.World.Scripted
import Mathlib.Data.List.FinRange

/-!
# Conversations walked on the records

A conversation can be held without building any line: a walk over the flat records keeps the
position of one record and follows positions from there. On records that a build accepts, a session
and the walk give the same report after every call.
-/

namespace Parley

/-- Whether the condition written in a record holds, never if it cannot be read. -/
def Record.holds (record : Record) (item? : ItemLookup) (npc : Npc) (player : Player) :
    Except ConditionError Bool :=
  match Condition.read record.condition with
  | .ok (condition, parameter) => condition.holds parameter item? npc player
  | .error _ => .ok false

/-- Where a walk stands: before its first record, at a record that waits for a response, or
nowhere any more. -/
inductive Place
  | outside
  | waiting (index : Nat)
  | gone

namespace Walk

variable {σ : Type}

structure Step (σ : Type) where
  result : Except SessionError Unit
  place : Place
  world : World σ

def choose (records : Array Record) (item? : ItemLookup) (npc : Npc) (player : Player) :
    List Nat → Except ConditionError (Option Nat)
  | [] => .ok none
  | index :: rest =>
    match records[index]? with
    | none => choose records item? npc player rest
    | some record =>
      if record.player = "" then
        match record.holds item? npc player with
        | .error error => .error error
        | .ok true => .ok (some index)
        | .ok false => choose records item? npc player rest
      else choose records item? npc player rest

def deliver (collaborators : Collaborators σ) (records : Array Record) (npc : Npc)
    (world : World σ) (index : Nat) : Step σ :=
  match records[index]? with
  | none => ⟨.ok (), .gone, world⟩
  | some record =>
    let action := (Action.ofToken? record.action).getD .nothing
    match (world.offer record.text).act collaborators npc action with
    | (world, some death) => ⟨.error (.playerDied death), .gone, world⟩
    | (world, none) => ⟨.ok (), if record.response = [] then .gone else .waiting index, world⟩

def begin (collaborators : Collaborators σ) (records : Array Record) (npc : Npc) (place : Place)
    (world : World σ) : Step σ :=
  match place with
  | .outside =>
    match choose records world.item? npc world.player (List.range records.size) with
    | .error error => ⟨.error (.condition error), .gone, world⟩
    | .ok none => ⟨.ok (), .gone, world⟩
    | .ok (some index) => deliver collaborators records npc world index
  | _ => ⟨.error .alreadyStarted, place, world⟩

def options (records : Array Record) : Place → List Nat
  | .waiting index => (records[index]?.map (·.response)).getD []
  | _ => []

def advance (collaborators : Collaborators σ) (records : Array Record) (npc : Npc) (place : Place)
    (world : World σ) (selection : Selection) : Step σ :=
  match place with
  | .outside => ⟨.error .notStarted, place, world⟩
  | .gone => ⟨.ok (), place, world⟩
  | .waiting _ =>
    match selection with
    | .leave => ⟨.ok (), .gone, world⟩
    | .respond choice =>
      match (options records place)[choice]? with
      | some response => deliver collaborators records npc world response
      | none => ⟨.error (.invalidSelection choice (options records place).length), place, world⟩

def steps (collaborators : Collaborators σ) (records : Array Record) (npc : Npc) (place : Place)
    (world : World σ) : List Selection → List (Step σ)
  | [] => []
  | selection :: rest =>
    let step := advance collaborators records npc place world selection
    step :: steps collaborators records npc step.place step.world rest

def conversation (collaborators : Collaborators σ) (records : Array Record) (npc : Npc)
    (world : World σ) (selections : List Selection) : List (Step σ) :=
  let step := begin collaborators records npc .outside world
  step :: steps collaborators records npc step.place step.world selections

end Walk

namespace Session

variable {σ : Type}

def turns (collaborators : Collaborators σ) (session : Session) (world : World σ) :
    List Selection → List (Turn σ)
  | [] => []
  | selection :: rest =>
    let turn := advance collaborators session world selection
    turn :: turns collaborators turn.session turn.world rest

def conversation (collaborators : Collaborators σ) (session : Session) (world : World σ)
    (selections : List Selection) : List (Turn σ) :=
  let turn := begin collaborators session world
  turn :: turns collaborators turn.session turn.world selections

end Session

namespace Walk

open Conversation

variable {σ : Type} {records : Array Record} {npc : Npc}

/-- A line is built from the record at a position. -/
def Stands (records : Array Record) (index : Nat) (line : Line) : Prop :=
  ∃ path, Finds records path index line

theorem Stands.record {index : Nat} {line : Line} (h : Stands records index line) :
    ∃ record, records[index]? = some record ∧ line.index = index ∧ line.Voices record ∧
      List.Forall₂ (Stands records) record.response line.responses := by
  obtain ⟨path, hinside, hfresh, hline⟩ := h
  obtain ⟨hlines, hassemble⟩ := resolve_eq_ok_iff.mp hline
  obtain ⟨hindex, -, hvoices, -, -⟩ := assemble_eq_ok_iff.mp hassemble
  refine ⟨records[index], Array.getElem?_eq_getElem hinside, hindex, hvoices, ?_⟩
  apply hlines.imp
  intro response l hfinds
  exact ⟨⟨index, hinside⟩ :: path, hfinds⟩

theorem Stands.recordAt {index : Fin records.size} {line : Line} (h : Stands records index line) :
    line.index = index ∧ line.Voices (recordAt records index) ∧
      List.Forall₂ (Stands records) (recordAt records index).response line.responses := by
  obtain ⟨record, hrecord, hparts⟩ := h.record
  have hhere : records[index.val]? = some (Conversation.recordAt records index) :=
    Array.getElem?_eq_getElem index.isLt
  obtain rfl := Option.some.inj (hrecord.symm.trans hhere)
  exact hparts

inductive Tracks (records : Array Record) : Phase → Place → Prop
  | outside : Tracks records .selectingEntry .outside
  | waiting {index : Nat} {line : Line} :
    Stands records index line → Tracks records (.active line) (.waiting index)
  | gone : Tracks records .terminated .gone

/-- A turn and a step have the same effect and lead to the same place. -/
structure Agrees (records : Array Record) (npc : Npc) (turn : Turn σ) (step : Step σ) : Prop where
  result : turn.result = step.result
  world : turn.world = step.world
  npc : turn.session.npc = npc
  tracks : Tracks records turn.session.phase step.place

theorem agrees_deliver (collaborators : Collaborators σ) (session : Session) (world : World σ)
    {index : Nat} {line : Line} (h : Stands records index line) :
    Agrees records session.npc (session.deliver collaborators world line)
      (deliver collaborators records session.npc world index) := by
  obtain ⟨record, hrecord, -, hvoices, hresponses⟩ := h.record
  have haction : (Action.ofToken? record.action).getD .nothing = line.action := by
    rw [hvoices.action, Action.ofToken?_token, Option.getD_some]
  have hlast : line.isLast ↔ record.response = [] := by
    rw [Line.isLast, List.isEmpty_iff, ← List.length_eq_zero_iff, ← hresponses.length_eq,
      List.length_eq_zero_iff]
  simp only [Session.deliver, deliver, hrecord, haction, hvoices.text]
  cases hact : (world.offer record.text).act collaborators session.npc line.action with
  | mk after death =>
    cases death with
    | some death => exact ⟨rfl, rfl, rfl, .gone⟩
    | none =>
      refine ⟨rfl, rfl, rfl, ?_⟩
      by_cases hresponse : record.response = []
      · simp only [Phase.after, if_pos hresponse, if_pos (hlast.mpr hresponse)]
        exact .gone
      · simp only [Phase.after, if_neg hresponse, if_neg (mt hlast.mp hresponse)]
        exact .waiting h

theorem holds_of_voices {record : Record} {line : Line} (h : line.Voices record)
    (item? : ItemLookup) (npc : Npc) (player : Player) :
    record.holds item? npc player = line.holds item? npc player := by
  have hread := Condition.read_eq_ok_iff.mpr h.condition
  simp only [Record.holds, Line.holds, hread]

inductive SameChoice (records : Array Record) :
    Except ConditionError (Option Line) → Except ConditionError (Option Nat) → Prop
  | error (error : ConditionError) : SameChoice records (.error error) (.error error)
  | none : SameChoice records (.ok none) (.ok none)
  | some {index : Nat} {line : Line} :
    Stands records index line → SameChoice records (.ok (some line)) (.ok (some index))

/-- The walk passes over the records that do not open the conversation, and judges the same
conditions as the session in the same order. -/
theorem sameChoice_choose (item? : ItemLookup) (npc : Npc) (player : Player)
    (indices : List (Fin records.size)) {lines : List Line}
    (hlines : List.Forall₂ (fun (index : Fin records.size) line => Stands records index line)
      (indices.filter fun index => (recordAt records index).isEntry) lines) :
    SameChoice records (Session.choose item? npc player lines)
      (choose records item? npc player (indices.map Fin.val)) := by
  induction indices generalizing lines with
  | nil =>
    obtain rfl := List.forall₂_nil_left_iff.mp hlines
    exact .none
  | cons index rest ih =>
    have hrecord : records[index.val]? = some (recordAt records index) :=
      Array.getElem?_eq_getElem index.isLt
    by_cases hentry : (recordAt records index).isEntry
    · simp only [List.filter_cons, if_pos hentry] at hlines
      obtain _ | @⟨_, line, _, _, hline, hrest⟩ := hlines
      obtain ⟨record, hrecord', -, hvoices, -⟩ := hline.record
      obtain rfl := Option.some.inj (hrecord.symm.trans hrecord')
      have hplayer := String.isEmpty_iff.mp hentry
      rw [List.map_cons, choose, hrecord, Session.choose]
      simp only [if_pos hplayer, holds_of_voices hvoices]
      cases line.holds item? npc player with
      | error error => exact .error error
      | ok holds =>
        cases holds with
        | true => exact .some hline
        | false => exact ih hrest
    · simp only [List.filter_cons, if_neg hentry] at hlines
      have hplayer : (recordAt records index).player ≠ "" := mt String.isEmpty_iff.mpr hentry
      rw [List.map_cons, choose, hrecord]
      simp only [if_neg hplayer]
      exact ih hlines

theorem stands_of_build {lines : List Line} (h : build records = .ok lines) :
    List.Forall₂ (fun (index : Fin records.size) line => Stands records index line)
      (entries records) lines := by
  have hlines := build_eq_ok_iff.mp h
  apply hlines.imp
  intro index line hline
  exact ⟨[], index.isLt, List.not_mem_nil, hline⟩

theorem agrees_begin (collaborators : Collaborators σ) {session : Session} (world : World σ)
    (hentries : build records = .ok session.entries) {place : Place}
    (htracks : Tracks records session.phase place) :
    Agrees records session.npc (session.begin collaborators world)
      (begin collaborators records session.npc place world) := by
  cases hphase : session.phase with
  | selectingEntry =>
    rw [hphase] at htracks
    cases htracks
    have hchoice := sameChoice_choose world.item? session.npc world.player
      (List.finRange records.size) (stands_of_build hentries)
    rw [List.map_coe_finRange_eq_range] at hchoice
    simp only [Session.begin, hphase, begin]
    generalize Session.choose world.item? session.npc world.player session.entries = chosen
      at hchoice ⊢
    generalize choose records world.item? session.npc world.player (List.range records.size)
      = picked at hchoice ⊢
    cases hchoice with
    | error error => exact ⟨rfl, rfl, rfl, .gone⟩
    | none => exact ⟨rfl, rfl, rfl, .gone⟩
    | some h => exact agrees_deliver collaborators session world h
  | active line =>
    rw [hphase] at htracks
    obtain _ | h | _ := htracks
    simp only [Session.begin, hphase, begin]
    exact ⟨rfl, rfl, rfl, hphase ▸ .waiting h⟩
  | terminated =>
    rw [hphase] at htracks
    cases htracks
    simp only [Session.begin, hphase, begin]
    exact ⟨rfl, rfl, rfl, hphase ▸ .gone⟩

theorem options_of_stands {index : Nat} {line : Line} (h : Stands records index line) :
    List.Forall₂ (Stands records) (options records (.waiting index)) line.responses := by
  obtain ⟨record, hrecord, -, -, hresponses⟩ := h.record
  simpa only [options, hrecord, Option.map_some, Option.getD_some] using hresponses

theorem getElem?_of_forall₂ {α β : Type} {R : α → β → Prop} {xs : List α} {ys : List β}
    (h : List.Forall₂ R xs ys) (i : Nat) : Option.Rel R xs[i]? ys[i]? := by
  induction h generalizing i with
  | nil => exact .none
  | cons hhead _ ih =>
    cases i with
    | zero => exact .some hhead
    | succ i => exact ih i

theorem exists_mem_of_forall₂ {α β : Type} {R : α → β → Prop} {xs : List α} {ys : List β}
    (h : List.Forall₂ R xs ys) {y : β} (hy : y ∈ ys) : ∃ x ∈ xs, R x y := by
  induction h with
  | nil => cases hy
  | @cons x _ xs _ hhead _ ih =>
    rcases List.mem_cons.mp hy with rfl | hrest
    · exact ⟨x, List.mem_cons_self, hhead⟩
    · obtain ⟨x', hx', hr⟩ := ih hrest
      exact ⟨x', List.mem_cons_of_mem x hx', hr⟩

theorem agrees_advance (collaborators : Collaborators σ) {session : Session} (world : World σ)
    (selection : Selection) {place : Place} (htracks : Tracks records session.phase place) :
    Agrees records session.npc (session.advance collaborators world selection)
      (advance collaborators records session.npc place world selection) := by
  cases hphase : session.phase with
  | selectingEntry =>
    rw [hphase] at htracks
    cases htracks
    simp only [Session.advance, hphase, advance]
    exact ⟨rfl, rfl, rfl, hphase ▸ .outside⟩
  | active line =>
    rw [hphase] at htracks
    obtain _ | h | _ := htracks
    simp only [Session.advance, hphase, advance]
    cases selection with
    | leave => exact ⟨rfl, rfl, rfl, .gone⟩
    | respond choice =>
      have hoptions := options_of_stands h
      simp only [← hoptions.length_eq]
      have hchoice := getElem?_of_forall₂ hoptions choice
      generalize (options records (.waiting _))[choice]? = picked at hchoice ⊢
      generalize line.responses[choice]? = chosen at hchoice ⊢
      cases hchoice with
      | none => exact ⟨rfl, rfl, rfl, hphase ▸ .waiting h⟩
      | some hresponse => exact agrees_deliver collaborators session world hresponse
  | terminated =>
    rw [hphase] at htracks
    cases htracks
    simp only [Session.advance, hphase, advance]
    exact ⟨rfl, rfl, rfl, hphase ▸ .gone⟩

/-- The line at this position is what the record there says, and its responses are those that the
record names. -/
def Shows (records : Array Record) (index : Nat) (line : Line) : Prop :=
  ∃ record, records[index]? = some record ∧ line.index = index ∧ line.Voices record ∧
    line.responses.map (·.index) = record.response

theorem Stands.shows {index : Nat} {line : Line} (h : Stands records index line) :
    Shows records index line := by
  obtain ⟨record, hrecord, hindex, hvoices, hresponses⟩ := h.record
  refine ⟨record, hrecord, hindex, hvoices, ?_⟩
  generalize record.response = response at hresponses
  generalize line.responses = lines at hresponses
  induction hresponses with
  | nil => rfl
  | cons hline _ ih =>
    obtain ⟨-, -, hindex, -⟩ := hline.record
    rw [List.map_cons, ih, hindex]

/-- What a caller sees of a call: its result, the world after it, and the responses that can now be
given. -/
structure SameReport (records : Array Record) (turn : Turn σ) (step : Step σ) : Prop where
  result : turn.result = step.result
  world : turn.world = step.world
  options : List.Forall₂ (Shows records) (options records step.place) turn.session.options

theorem Agrees.sameReport {turn : Turn σ} {step : Step σ} (h : Agrees records npc turn step) :
    SameReport records turn step := by
  refine ⟨h.result, h.world, ?_⟩
  have htracks := h.tracks
  rw [Session.options]
  generalize turn.session.phase = phase at htracks ⊢
  generalize step.place = place at htracks ⊢
  cases htracks with
  | outside => exact .nil
  | waiting h =>
    apply (options_of_stands h).imp
    intro response line hline
    exact hline.shows
  | gone => exact .nil

theorem sameReport_turns (collaborators : Collaborators σ) {turn : Turn σ} {step : Step σ}
    (h : Agrees records npc turn step) (selections : List Selection) :
    List.Forall₂ (SameReport records)
      (turn.session.turns collaborators turn.world selections)
      (steps collaborators records npc step.place step.world selections) := by
  induction selections generalizing turn step with
  | nil => exact .nil
  | cons selection rest ih =>
    have hagrees := agrees_advance collaborators turn.world selection h.tracks
    rw [h.npc, h.world] at hagrees
    rw [Session.turns, steps, h.world]
    exact .cons hagrees.sameReport (ih hagrees)

/-- On records that a build accepts, a session over their lines and a walk over the records give the
same report after every call, whatever is selected. -/
theorem conversation_follows_records (collaborators : Collaborators σ) (registry : Registry)
    (npc : Npc) (world : World σ) {records : Array Record} {lines : List Line}
    (hlines : build records = .ok lines) (selections : List Selection) :
    List.Forall₂ (SameReport records)
      ((Session.new (registry.insert npc.name lines) npc).conversation collaborators world
        selections)
      (conversation collaborators records npc world selections) := by
  have hentries : build records =
      .ok (Session.new (registry.insert npc.name lines) npc).entries := by
    rw [hlines, Session.new, Registry.entries_insert, if_pos rfl]
  have hagrees := agrees_begin collaborators world hentries .outside
  exact .cons hagrees.sameReport (sameReport_turns collaborators hagrees selections)

def guard : Npc :=
  ⟨.nil, "Guard", ∅, ∅⟩

def encampment : World Script :=
  { player := ⟨.nil, "Hero", 5, "Recruit", .full, .empty⟩, item? := Catalog.empty.item?
    notice := "Beware!", messages := .empty, journal := #[], state := ⟨[10], []⟩ }

/-- The same with a trade: the player gives up a level for a lamp. -/
def market : World Script :=
  { encampment with state := ⟨[10], [⟨[("lamp", 1)], [], some 4, none, none⟩]⟩ }

theorem crossroads_walked :
    ∃ lines, build crossroads = .ok lines ∧
      let session := Session.new (Registry.empty.insert guard.name lines) guard
      let left := [.respond 0, .respond 7, .respond 0]
      let right := [.respond 1, .respond 1]
      List.Forall₂ (SameReport crossroads)
        (session.conversation Script.collaborators market left)
        (conversation Script.collaborators crossroads guard market left) ∧
      List.Forall₂ (SameReport crossroads)
        (session.conversation Script.collaborators market right)
        (conversation Script.collaborators crossroads guard market right) ∧
      (conversation Script.collaborators crossroads guard market left).map
          (fun step => (step.world.messages.toList, step.world.journal.toList)) =
        [(["Which way?"], []), (["Which way?", "Left it is.", "Beware!"], [.attack "Guard"]),
          (["Which way?", "Left it is.", "Beware!"], [.attack "Guard"]),
          (["Which way?", "Left it is.", "Beware!", "Farewell."], [.attack "Guard"])] ∧
      (conversation Script.collaborators crossroads guard market right).map
          (fun step => (step.world.messages.toList, step.world.journal.toList)) =
        [(["Which way?"], []), (["Which way?", "Right it is."], [.trade "Guard" .both]),
          (["Which way?", "Right it is.", "Farewell."], [.trade "Guard" .both])] ∧
      (conversation Script.collaborators crossroads guard market left).map
          (fun step => step.world.player.health.current) = [100, 90, 90, 90] ∧
      (conversation Script.collaborators crossroads guard market right).map
          (fun step => (step.world.player.level, step.world.player.inventory.held)) =
        [(5, []), (4, [⟨"lamp", 1⟩]), (4, [⟨"lamp", 1⟩])] := by
  have hfollows := conversation_follows_records Script.collaborators .empty guard market
    build_crossroads
  exact ⟨_, build_crossroads, hfollows _, hfollows _, by decide +kernel, by decide +kernel,
    by decide +kernel, by decide +kernel⟩

end Walk

end Parley
