import GndCtrl.StaleBytes
import GndCtrl.BootSafety
import GndCtrl.HzLimit
import GndCtrl.Stops
import GndCtrl.Projection
import GndCtrl.Frames
import GndCtrl.Intervals
import GndCtrl.Delivery
import GndCtrl.Commits
import GndCtrl.Callback
import GndCtrl.Records
import GndCtrl.Preemption
import GndCtrl.Truthful
import GndCtrl.Answers
import GndCtrl.OnBoard
import GndCtrl.Mirror
import GndCtrl.Crc
import GndCtrl.Integral
import GndCtrl.Pairing
import GndCtrl.Staging
import GndCtrl.Positioning
import GndCtrl.StartHz
import GndCtrl.Checksum
import GndCtrl.Dip
import GndCtrl.MsgQueue
import GndCtrl.EthRecv
import GndCtrl.EthSend
import GndCtrl.Refinement
import GndCtrl.PbufRuns
import GndCtrl.EtharpBound
import GndCtrl.Etharp
import GndCtrl.Inverter
import GndCtrl.MemRuns
