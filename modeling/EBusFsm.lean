import EBusFsm.Lib.Stuffing
import EBusFsm.Lib.Program
import EBusFsm.Telegram
import EBusFsm.Telegram.Parts
import EBusFsm.Telegram.Parse
import EBusFsm.Telegram.Decode
import EBusFsm.Telegram.Create
import EBusFsm.Lib.Fallible
import EBusFsm.Lib.Checksum
import EBusFsm.Lib.Remainder
import EBusFsm.Crc
import EBusFsm.Lib.Spelling
import EBusFsm.Telegram.Spelling
import EBusFsm.Telegram.Represent
import EBusFsm.Lib.Pairs
import EBusFsm.Hex
import EBusFsm.Machine.Device
import EBusFsm.Machine.Handlers
import EBusFsm.Lib.Run
import EBusFsm.Machine.System
import EBusFsm.Machine.Io
import EBusFsm.Machine.Spec
import EBusFsm.Machine.Transition
import EBusFsm.Machine.Safety
import EBusFsm.Machine.Wire
import EBusFsm.Machine.Reception
import EBusFsm.Machine.Completion
import EBusFsm.Machine.Lifetime
import EBusFsm.Machine.Publish
import EBusFsm.Machine.Agreement
import EBusFsm.Machine.Passive
import EBusFsm.Machine.Online
import EBusFsm.Machine.Blocks
import EBusFsm.Machine.Queue
import EBusFsm.Machine.Stranded
import EBusFsm.Machine.Commands
import EBusFsm.Machine.Attempts
import EBusFsm.Lib.Wired
import EBusFsm.Machine.Application
import EBusFsm.Machine.Release
import EBusFsm.Machine.Arbitration
import EBusFsm.Lib.Bus
import EBusFsm.Machine.Causal
import EBusFsm.Machine.Stream
import EBusFsm.Machine.Script
import EBusFsm.Machine.Delivery
import EBusFsm.Machine.Invariant
import EBusFsm.Machine.Fairness
import EBusFsm.Machine.Range
import EBusFsm.Machine.Lock
import EBusFsm.Lib.Reader
import EBusFsm.Machine.Framing
import EBusFsm.Machine.Bounded
import EBusFsm.Machine.Notify
import EBusFsm.Machine.Rounds
import EBusFsm.Machine.Network
import EBusFsm.Machine.Service
import EBusFsm.Machine.Destroy
import EBusFsm.Machine.Custody
import EBusFsm.Lib.Pieces
import EBusFsm.Machine.Overhear
import EBusFsm.Machine.Tty
import EBusFsm.Machine.NQueue
import EBusFsm.Lib.Reduction
import EBusFsm.Machine.Atomic
import EBusFsm.Machine.Occasion
import EBusFsm.Machine.Verdict
import EBusFsm.Telegram.CutOff
