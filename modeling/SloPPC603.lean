import SloPPC603.Dcache.Reservation
import SloPPC603.Dcache.Memory
import SloPPC603.Dcache.Sets
import SloPPC603.Fetch.Stream
import SloPPC603.Translation.AllOrNothing
import SloPPC603.Flags.Hazard
import SloPPC603.Rename.Track
import SloPPC603.Lsu.Hold
import SloPPC603.Lsu.Overlap
import SloPPC603.Lsu.Lost
import SloPPC603.Lsu.StoreQueue
import SloPPC603.Router.Precedence
import SloPPC603.Router.Invisible
import SloPPC603.Issue.Queue
import SloPPC603.Integer.Multiplier
import SloPPC603.Integer.Record
import SloPPC603.Issue.Station
import SloPPC603.Completion.Finish
import SloPPC603.Rename.Recovery
import SloPPC603.Dcache.Progress
import SloPPC603.Registers.Gpr
import SloPPC603.Lsu.Sequence
import SloPPC603.Decode.Packed
import SloPPC603.Fpu.Replies
import SloPPC603.Fpu.Fpscr
import SloPPC603.Fpu.Single
import SloPPC603.Fetch.Branches
import SloPPC603.Bus.SingleBeat
import SloPPC603.Bus.Transparent
import SloPPC603.Special.Acknowledged
import SloPPC603.Icache.Responses
import SloPPC603.Fpu.Correct
import SloPPC603.Lsu.Pieces
import SloPPC603.Bus602.Once
import SloPPC603.Bus.TwoMaster
