import CrickerOs.Regions.Overflow
import CrickerOs.Kernel.Completion
import CrickerOs.Kernel.Receipts
import CrickerOs.Kernel.Survey
import CrickerOs.WakeHandshake.Protocol
import CrickerOs.Frames.Ownership
import CrickerOs.Ipc.Intrusive
import CrickerOs.Virtio.OwnDevice
import CrickerOs.Kernel.OnePlace
import CrickerOs.Nifefs.RoundTrip
import CrickerOs.Gpt.RoundTrip
import CrickerOs.Loader.Child
import CrickerOs.GrantPlan.Batches
import CrickerOs.GrantPlan.Account
import CrickerOs.Timetable.Beats
import CrickerOs.Swish.Designation
import CrickerOs.Caretaker.Confinement
import CrickerOs.Caretaker.ChangeOfRoot
import CrickerOs.Kernel.Gone
import CrickerOs.Kernel.Subdivision
import CrickerOs.UserHeap.Tiling
import CrickerOs.MdnsProto.RoundTrip
import CrickerOs.Glob.Cost
import CrickerOs.Glob.Literal
import CrickerOs.Gpt.Checksum
import CrickerOs.GrantPlan.Position
import CrickerOs.NtpProto.Sample
import CrickerOs.Dtb.Registers
import CrickerOs.Pci.Placement
import CrickerOs.Revoke.MappingLog
import CrickerOs.MeasuredBoot.Sha256
import CrickerOs.FsProto.Blobs
import CrickerOs.FsServer.BlockDisk
import CrickerOs.FsServer.Paging
import CrickerOs.Cred.Store
import CrickerOs.SmbServer.Framing
import CrickerOs.Compositor.Rect
import CrickerOs.Kernel.Rendezvous
import CrickerOs.Broker.Custody
