import Parley.Answer.Menu
import Parley.Answer.Rehearsed
import Parley.Conversation.Listing
import Parley.Conversation.Plain
import Parley.Document.Characters
import Parley.Document.Items
import Parley.LazyRegistry
import Parley.Session
import Parley.World.Scripted
import Parley.Proofs.Assembly
import Parley.Proofs.Resolution
import Parley.Proofs.Acceptance
import Parley.Proofs.Defects
import Parley.Proofs.FlatWalk
import Parley.Proofs.SharedLines
import Parley.Proofs.Parameters
import Parley.Proofs.Unreached
import Parley.Proofs.Renumbering
import Parley.Proofs.SessionCalls
import Parley.Proofs.Deliveries
import Parley.Proofs.Failures
import Parley.Proofs.Rehearsals
import Parley.Proofs.Endings
import Parley.Proofs.Loading
import Parley.Proofs.Judging
import Parley.Proofs.Answering
import Parley.Proofs.Replays
import Parley.Proofs.Consumption
import Parley.Proofs.MenuReading
import Parley.Proofs.Spellings
import Parley.Proofs.MenuChoices
import Parley.Proofs.Patience
import Parley.Proofs.Holdings
import Parley.Proofs.Conditions
import Parley.Proofs.LazyLoading
import Parley.Proofs.Openings
import Parley.Proofs.Numerals
import Parley.Proofs.Rereading
import Parley.Proofs.Structures
import Parley.Proofs.Transcripts
import Parley.Proofs.Notices
import Parley.Proofs.Wounds
import Parley.Proofs.Passes
import Parley.Proofs.Unguarded
import Parley.Proofs.PassCount
