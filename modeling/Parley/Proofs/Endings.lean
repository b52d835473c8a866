import Parley.Proofs.Deliveries
import Parley.Proofs.FlatWalk
import Mathlib.Data.Fintype.Card

/-!
# Conversations end

No line of a built conversation leads back to its own record. So no record is delivered twice, and
a conversation is over after as many answers as there are records, whatever the answers are.
-/

namespace Parley

namespace Walk

open Conversation

variable {records : Array Record} {lines : List Line}

theorem Stands.of_offers {position : Fin records.size} {line next : Line}
    (h : Stands records position line) (hoffers : line.Offers next) :
    ∃ response : Fin records.size, Links records position response ∧
      Stands records response next := by
  obtain ⟨-, -, hresponses⟩ := h.recordAt
  obtain ⟨response, hmem, hnext⟩ := exists_mem_of_forall₂ hresponses hoffers
  obtain ⟨path, hinside, hfinds⟩ := hnext
  exact ⟨⟨response, hinside⟩, hmem, path, hinside, hfinds⟩

/-- The positions of the lines that follow a line of a built conversation. -/
theorem exists_positions {position : Fin records.size} {line : Line} {rest : List Line}
    (h : Stands records position line) (hpath : (line :: rest).IsChain Line.Offers) :
    ∃ positions : List (Fin records.size),
      positions.map Fin.val = rest.map (·.index) ∧
        (position :: positions).IsChain (Links records) := by
  induction rest generalizing position line with
  | nil => exact ⟨[], rfl, .singleton position⟩
  | cons next rest ih =>
    obtain ⟨hoffers, hrest⟩ := List.isChain_cons_cons.mp hpath
    obtain ⟨response, hlink, hnext⟩ := h.of_offers hoffers
    obtain ⟨positions, hpositions, hchain⟩ := ih hnext hrest
    obtain ⟨-, -, hindex, -⟩ := hnext.record
    refine ⟨response :: positions, ?_, .cons_cons hlink hchain⟩
    rw [List.map_cons, List.map_cons, hpositions, hindex]

/-- Positions that lead from an entry through responses are all different. -/
theorem nodup_of_links (h : build records = .ok lines) {entry : Fin records.size}
    {positions : List (Fin records.size)} (hentry : entry ∈ entries records)
    (hchain : (entry :: positions).IsChain (Links records)) : (entry :: positions).Nodup := by
  have hlinked : (entry :: positions).IsChain (Relation.TransGen (Links records)) :=
    hchain.imp fun _ _ => .single
  have hpairs := hlinked.pairwise
  refine hpairs.imp_of_mem fun {here there} hhere _ hleads heq => ?_
  subst heq
  refine (clear_of_build h hentry ?_).2.2 hleads
  rcases List.mem_cons.mp hhere with rfl | hrest
  · exact .refl
  · exact (List.rel_of_pairwise_cons hpairs hrest).to_reflTransGen

/-- On a path through a built conversation no record comes twice. -/
theorem nodup_of_isPath (h : build records = .ok lines) {path : List Line}
    (hpath : Line.IsPath lines path) :
    (path.map (·.index)).Nodup ∧ path.length ≤ records.size := by
  cases path with
  | nil => exact ⟨List.nodup_nil, Nat.zero_le _⟩
  | cons first rest =>
    have hfirst := hpath.opens first (by simp)
    obtain ⟨entry, hentry, hstands⟩ :=
      exists_mem_of_forall₂ (stands_of_build h) hfirst
    obtain ⟨positions, hpositions, hchain⟩ := exists_positions hstands hpath.offered
    obtain ⟨-, -, hindex, -⟩ := hstands.record
    have hmap : (first :: rest).map (·.index) = (entry :: positions).map Fin.val := by
      rw [List.map_cons, List.map_cons, hpositions, hindex]
    have hnodup := nodup_of_links h hentry hchain
    have hlength := congrArg List.length hmap
    rw [List.length_map, List.length_map] at hlength
    rw [hmap, hlength]
    refine ⟨hnodup.map Fin.val_injective, ?_⟩
    simpa using hnodup.length_le_card

end Walk

namespace Session

variable {σ τ : Type}

/-- How a conversation went: the lines that were delivered, those that its source of answers was
asked about, and what it came to. -/
structure Course (σ τ : Type) where
  delivered : List Line
  asked : List Line
  result : Turn σ × τ

/-- The course with a call before it, and the lines that the source was asked about for the call. -/
def Course.after (course : Course σ τ) (delivered : Option Line) (asked : List Line) :
    Course σ τ :=
  ⟨delivered.toList ++ course.delivered, asked ++ course.asked, course.result⟩

/-- The source answers a line that the session waits at: the line that is delivered then, if one
is, and what that comes to. -/
structure Exchange (σ τ : Type) where
  delivered : Option Line
  turn : Turn σ
  source : τ

def exchange (collaborators : Collaborators σ) (answers : AnswerSource τ) (session : Session)
    (world : World σ) (source : τ) (line : Line) : Exchange σ τ :=
  let answer := answers.select source line
  let asking := world.offerAll answer.messages
  let move := Move.advance answer.selection
  ⟨move.delivered? session asking, move.turn collaborators session asking, answer.source⟩

/-- One exchange after another, but no more than so many. It is no course if the session still waits
for an answer then. -/
def converseWithin (collaborators : Collaborators σ) (answers : AnswerSource τ) :
    Nat → Session → World σ → τ → Option (Course σ τ)
  | exchanges, session, world, source =>
    match exchanges, session.phase with
    | 0, .active _ => none
    | exchanges + 1, .active line =>
      let next := session.exchange collaborators answers world source line
      match next.turn.result with
      | .error _ => some ⟨next.delivered.toList, [line], next.turn, next.source⟩
      | .ok () =>
        (converseWithin collaborators answers exchanges next.turn.session next.turn.world
          next.source).map (·.after next.delivered [line])
    | _, _ => some ⟨[], [], ⟨.ok (), session, world⟩, source⟩

/-- Hold the conversation to its end, beginning it first if need be, in no more exchanges. -/
def runWithin (collaborators : Collaborators σ) (answers : AnswerSource τ) (exchanges : Nat)
    (session : Session) (world : World σ) (source : τ) : Option (Course σ τ) :=
  match session.phase with
  | .selectingEntry =>
    let delivered := Move.begin.delivered? session world
    let turn := session.begin collaborators world
    match turn.result with
    | .error _ => some ⟨delivered.toList, [], turn, source⟩
    | .ok () =>
      (converseWithin collaborators answers exchanges turn.session turn.world source).map
        (·.after delivered [])
  | _ => converseWithin collaborators answers exchanges session world source

variable {collaborators : Collaborators σ} {answers : AnswerSource τ} {entries path : List Line}
  {session : Session} {world : World σ} {source : τ}

theorem converseWithin_idle (h : ∀ line, session.phase ≠ .active line) (exchanges : Nat) :
    converseWithin collaborators answers exchanges session world source =
      some ⟨[], [], ⟨.ok (), session, world⟩, source⟩ := by
  cases exchanges <;> cases hphase : session.phase <;> simp_all [converseWithin]

theorem converseWithin_active {line : Line} (h : session.phase = .active line)
    (exchanges : Nat) :
    converseWithin collaborators answers (exchanges + 1) session world source =
      let next := session.exchange collaborators answers world source line
      match next.turn.result with
      | .error _ => some ⟨next.delivered.toList, [line], next.turn, next.source⟩
      | .ok () =>
        (converseWithin collaborators answers exchanges next.turn.session next.turn.world
          next.source).map (·.after next.delivered [line]) := by
  rw [converseWithin.eq_def]
  simp only [h]

theorem converse_eq_exchange {line : Line} (h : session.phase = .active line) :
    converse collaborators answers session world source =
      let next := session.exchange collaborators answers world source line
      match next.turn.result with
      | .error _ => (next.turn, next.source)
      | .ok () =>
        converse collaborators answers next.turn.session next.turn.world next.source :=
  converse_active h

theorem OnPath.exchange (h : OnPath entries path session) (collaborators : Collaborators σ)
    (answers : AnswerSource τ) (world : World σ) (source : τ) (line : Line) :
    let next := session.exchange collaborators answers world source line
    OnPath entries (path ++ next.delivered.toList) next.turn.session :=
  h.turn collaborators _ _

/-- If a call succeeds, the session waits at the line that it has delivered, or does not wait. -/
theorem sublist_of_outcome {move : Move} {line? : Option Line} {turn : Turn σ}
    (h : move.Outcome collaborators session world line? turn) (hok : turn.result = .ok ()) :
    turn.session.phase.current?.toList.Sublist line?.toList := by
  cases h with
  | opened | answered =>
    rw [deliver_eq_told]
    split
    · exact List.nil_sublist _
    · simp only [Phase.after]
      split
      · exact List.nil_sublist _
      · exact List.Sublist.refl _
  | silent | left | cancelled => exact List.nil_sublist _
  | ended hphase => simp [hphase, Phase.current?]
  | unjudged | alreadyStarted | unavailable | notStarted => cases hok

theorem sublist_of_exchange {line : Line}
    (hok : (session.exchange collaborators answers world source line).turn.result = .ok ()) :
    let next := session.exchange collaborators answers world source line
    next.turn.session.phase.current?.toList.Sublist next.delivered.toList :=
  sublist_of_outcome (Move.outcome_turn collaborators session _ _) hok

/-- The course is that of the conversation that the session goes on with after it has delivered the
lines on `path`. -/
structure Course.Follows (collaborators : Collaborators σ) (answers : AnswerSource τ)
    (entries path : List Line) (session : Session) (world : World σ) (source : τ)
    (course : Course σ τ) : Prop where
  result_eq : course.result = converse collaborators answers session world source
  onPath : OnPath entries (path ++ course.delivered) course.result.1.session
  asked : course.asked.Sublist
    ((session.phase.current?.toList ++ course.delivered).filter fun line => !line.isLast)

theorem follows_idle (h : OnPath entries path session)
    (hidle : ∀ line, session.phase ≠ .active line) :
    Course.Follows collaborators answers entries path session world source
      ⟨[], [], ⟨.ok (), session, world⟩, source⟩ where
  result_eq := (converse_idle hidle).symm
  onPath := by simpa using h
  asked := List.nil_sublist _

section Active

variable {line : Line}

theorem filter_current (h : OnPath entries path session) (hline : session.phase = .active line)
    (delivered : List Line) :
    (session.phase.current?.toList ++ delivered).filter (fun line => !line.isLast) =
      line :: delivered.filter fun line => !line.isLast := by
  have hopen := (h.waiting line hline).2
  simp [hline, Phase.current?, Line.isLast, hopen]

theorem follows_failed (h : OnPath entries path session) (hline : session.phase = .active line)
    {error : SessionError}
    (herror : (session.exchange collaborators answers world source line).turn.result =
      .error error) :
    let next := session.exchange collaborators answers world source line
    Course.Follows collaborators answers entries path session world source
      ⟨next.delivered.toList, [line], next.turn, next.source⟩ := by
  refine ⟨?_, h.exchange collaborators answers world source line, ?_⟩
  · rw [converse_eq_exchange hline]
    simp only [herror]
  · rw [filter_current h hline]
    exact (List.nil_sublist _).cons_cons line

theorem follows_answered (h : OnPath entries path session) (hline : session.phase = .active line)
    (hok : (session.exchange collaborators answers world source line).turn.result = .ok ())
    {course : Course σ τ}
    (hcourse : let next := session.exchange collaborators answers world source line
      course.Follows collaborators answers entries (path ++ next.delivered.toList)
        next.turn.session next.turn.world next.source) :
    let next := session.exchange collaborators answers world source line
    (course.after next.delivered [line]).Follows collaborators answers entries path session world
      source := by
  refine ⟨?_, ?_, ?_⟩
  · rw [converse_eq_exchange hline]
    simp only [hok]
    exact hcourse.result_eq
  · rw [Course.after, ← List.append_assoc]
    exact hcourse.onPath
  · rw [filter_current h hline, Course.after, List.singleton_append]
    have hwaiting := (sublist_of_exchange hok).append_right course.delivered
    exact (hcourse.asked.trans (hwaiting.filter _)).cons_cons line

/-- The session waits again only if one more line has been delivered. -/
theorem room_of_exchange {size exchanges : Nat}
    (hok : (session.exchange collaborators answers world source line).turn.result = .ok ())
    (hroom : size < path.length + (exchanges + 1)) :
    let next := session.exchange collaborators answers world source line
    ∀ last, next.turn.session.phase = .active last →
      size < (path ++ next.delivered.toList).length + exchanges := by
  intro next last hlast
  have hwaiting : next.turn.session.phase.current?.toList.length ≤ next.delivered.toList.length :=
    (sublist_of_exchange hok).length_le
  rw [hlast, Phase.current?, Option.toList_some, List.length_singleton] at hwaiting
  rw [List.length_append]
  omega

end Active

/-- A conversation ends when no path is as long as the lines delivered and the exchanges to go. -/
theorem converseWithin_ends (collaborators : Collaborators σ) (answers : AnswerSource τ)
    {size : Nat} (hbound : ∀ path, Line.IsPath entries path → path.length ≤ size)
    (exchanges : Nat) (h : OnPath entries path session)
    (hroom : ∀ line, session.phase = .active line → size < path.length + exchanges)
    (world : World σ) (source : τ) :
    ∃ course,
      converseWithin collaborators answers exchanges session world source = some course ∧
        course.Follows collaborators answers entries path session world source := by
  induction exchanges generalizing path session world source with
  | zero =>
    have hidle : ∀ line, session.phase ≠ .active line := by
      intro line hline
      have hlength := hbound path h.isPath
      have hlong := hroom line hline
      omega
    exact ⟨_, converseWithin_idle hidle 0, follows_idle h hidle⟩
  | succ exchanges ih =>
    by_cases hactive : ∃ line, session.phase = .active line
    · obtain ⟨line, hline⟩ := hactive
      have hnext := h.exchange collaborators answers world source line
      rw [converseWithin_active hline]
      dsimp only at hnext ⊢
      split
      · next error herror => exact ⟨_, rfl, follows_failed h hline herror⟩
      · next hok =>
        have hroom' := room_of_exchange hok (hroom line hline)
        obtain ⟨course, hcourse, hfollows⟩ := ih hnext hroom' _ _
        rw [hcourse]
        exact ⟨_, rfl, follows_answered h hline hok hfollows⟩
    · have hidle := not_exists.mp hactive
      exact ⟨_, converseWithin_idle hidle _, follows_idle h hidle⟩

theorem sublist_of_onPath (h : OnPath entries path session) :
    session.phase.current?.toList.Sublist path := by
  cases hphase : session.phase with
  | selectingEntry | terminated => exact List.nil_sublist path
  | active line =>
    have hlast := (h.waiting line hphase).1
    rw [Phase.current?, Option.toList_some, List.singleton_sublist]
    exact List.mem_of_getLast? hlast

/-- Together with the lines delivered before, the course delivers no record twice and no more lines
than there are records, and it asks about each of these lines at most once, never about one without
responses. -/
structure Course.Sparing (size : Nat) (before : List Line) (course : Course σ τ) : Prop where
  nodup : ((before ++ course.delivered).map (·.index)).Nodup
  length_le : (before ++ course.delivered).length ≤ size
  asked : course.asked.Sublist ((before ++ course.delivered).filter fun line => !line.isLast)

/-- A run ends with this result in at most `size` exchanges, and delivers and asks sparingly. -/
def Ends (collaborators : Collaborators σ) (answers : AnswerSource τ) (size : Nat)
    (before : List Line) (session : Session) (world : World σ) (source : τ)
    (result : Turn σ × τ) : Prop :=
  ∃ course, runWithin collaborators answers size session world source = some course ∧
    course.result = result ∧ course.Sparing size before

theorem runWithin_resumes (h : session.phase ≠ .selectingEntry) (exchanges : Nat) :
    runWithin collaborators answers exchanges session world source =
      converseWithin collaborators answers exchanges session world source := by
  rw [runWithin]
  split
  · next hphase => exact absurd hphase h
  · rfl

section Bounded

variable {size : Nat}

theorem follows_of_onPath (collaborators : Collaborators σ) (answers : AnswerSource τ)
    (hbound : ∀ path, Line.IsPath entries path → path.length ≤ size)
    (h : OnPath entries path session) (world : World σ) (source : τ) :
    ∃ course, converseWithin collaborators answers size session world source = some course ∧
      course.Follows collaborators answers entries path session world source := by
  refine converseWithin_ends collaborators answers hbound size h ?_ world source
  intro line hline
  have hlast := (h.waiting line hline).1
  have hpositive : 0 < path.length := List.length_pos_of_mem (List.mem_of_getLast? hlast)
  omega

theorem Course.Follows.sparing {course : Course σ τ}
    (h : course.Follows collaborators answers entries path session world source)
    (hpath : OnPath entries path session)
    (hbound : ∀ path, Line.IsPath entries path →
      (path.map (·.index)).Nodup ∧ path.length ≤ size) : course.Sparing size path := by
  obtain ⟨hnodup, hlength⟩ := hbound _ h.onPath.isPath
  refine ⟨hnodup, hlength, h.asked.trans ?_⟩
  exact ((sublist_of_onPath hpath).append_right _).filter _

theorem run_ends (collaborators : Collaborators σ) (answers : AnswerSource τ)
    (hbound : ∀ path, Line.IsPath entries path →
      (path.map (·.index)).Nodup ∧ path.length ≤ size)
    (h : OnPath entries path session) (world : World σ) (source : τ) :
    Ends collaborators answers size path session world source
      (session.run collaborators answers world source) := by
  have hlength : ∀ path, Line.IsPath entries path → path.length ≤ size :=
    fun path hpath => (hbound path hpath).2
  by_cases hphase : session.phase = .selectingEntry
  · obtain rfl := h.fresh hphase
    have hturn := h.turn collaborators world .begin
    rw [Move.turn_begin, List.nil_append] at hturn
    cases hresult : (session.begin collaborators world).result with
    | error error =>
      simp only [Ends, runWithin, run, hphase, hresult]
      obtain ⟨hnodup, hlength⟩ := hbound _ hturn.isPath
      exact ⟨_, rfl, rfl, hnodup, hlength, List.nil_sublist _⟩
    | ok =>
      obtain ⟨course, hcourse, hfollows⟩ := follows_of_onPath collaborators answers hlength
        hturn (session.begin collaborators world).world source
      have hsparing := hfollows.sparing hturn hbound
      simp only [Ends, runWithin, run, hphase, hresult, hcourse]
      exact ⟨_, rfl, hfollows.result_eq, hsparing.nodup, hsparing.length_le, hsparing.asked⟩
  · rw [Ends, runWithin_resumes hphase, run_resumes hphase]
    obtain ⟨course, hcourse, hfollows⟩ := follows_of_onPath collaborators answers hlength h
      world source
    exact ⟨course, hcourse, hfollows.result_eq, hfollows.sparing h hbound⟩

end Bounded

/-- Whatever the source of answers does, a whole conversation over built lines ends in no more
exchanges than there are records, and so does a run on a session that has been called in any way
before, also if the world has changed since. -/
theorem conversations_end (collaborators : Collaborators σ) (answers : AnswerSource τ)
    {registry : Registry} {npc : Npc} {records : Array Record}
    (hbuild : Conversation.build records = .ok (registry.entries npc.name)) (before : World σ)
    (moves : List Move) (world : World σ) (source : τ) :
    let fresh := new registry npc
    let session := (callAll collaborators fresh before (moves.map Move.operation)).1
    Ends collaborators answers records.size [] fresh world source
        (start collaborators answers registry npc world source) ∧
      Ends collaborators answers records.size (deliveries collaborators fresh before moves)
        session world source (run collaborators answers session world source) := by
  have hbound := fun path (hpath : Line.IsPath (registry.entries npc.name) path) =>
    Walk.nodup_of_isPath hbuild hpath
  have hfresh := onPath_new registry npc
  have hsession := hfresh.callAll collaborators before moves
  exact ⟨run_ends collaborators answers hbound hfresh world source,
    run_ends collaborators answers hbound hsession world source⟩

/-- An answer source that never leaves. -/
def insistent : AnswerSource Nat where
  select := fun asked _ => ⟨.respond 0, [], asked + 1⟩

theorem crossroads_end :
    ∃ lines, Conversation.build Conversation.crossroads =
        .ok ((Registry.empty.insert Walk.guard.name lines).entries Walk.guard.name) ∧
      let fresh := new (Registry.empty.insert Walk.guard.name lines) Walk.guard
      let moves := [.begin, .advance (.respond 7), .advance (.respond 1)]
      let session := (callAll Script.collaborators fresh Walk.encampment
        (moves.map Move.operation)).1
      Ends Script.collaborators insistent 5 [] fresh Walk.encampment 0
          (start Script.collaborators insistent (Registry.empty.insert Walk.guard.name lines)
            Walk.guard Walk.encampment 0) ∧
        Ends Script.collaborators insistent 5
          (deliveries Script.collaborators fresh Walk.encampment moves) session Walk.encampment 0
          (run Script.collaborators insistent session Walk.encampment 0) := by
  let lines := [Conversation.parting, Conversation.farewell]
  have hlines : Conversation.build Conversation.crossroads = .ok lines :=
    Conversation.build_crossroads
  have hentries : (Registry.empty.insert Walk.guard.name lines).entries Walk.guard.name =
      lines := by
    rw [Registry.entries_insert, if_pos rfl]
  rw [← hentries] at hlines
  exact ⟨lines, hlines, conversations_end Script.collaborators insistent hlines Walk.encampment
    [.begin, .advance (.respond 7), .advance (.respond 1)] Walk.encampment 0⟩

end Session

end Parley
