import LaylaOS.Memory.FirstFit
import LaylaOS.Memory.RangeMarking
import LaylaOS.Memory.FrameOwnership
import LaylaOS.Fs.PathSplit
import LaylaOS.Fs.Containment
import LaylaOS.Fs.Namespace
import LaylaOS.Fs.Aliasing
import LaylaOS.Fs.ListedNames
import LaylaOS.Fs.LeastFree
import LaylaOS.Fs.Freeing
import LaylaOS.Net.TcpStream
import LaylaOS.Net.TcpClose
import LaylaOS.Net.Rfc1071
import LaylaOS.Net.FrameResidue
import LaylaOS.Net.Lan
import LaylaOS.Net.TcpSequence
import LaylaOS.Net.TcpPeer
import LaylaOS.Net.Icmp
import LaylaOS.Net.Unsent
import LaylaOS.Net.ReceiveRing
import LaylaOS.Ui.Layout
import LaylaOS.Ui.EditLine
import LaylaOS.Ui.Keyboard
import LaylaOS.Kernel.HeapWindow
import LaylaOS.Kernel.ContextSwitch
import LaylaOS.Kernel.Exit
import LaylaOS.Kernel.RoundRobin
import LaylaOS.Kernel.Exec
import LaylaOS.Kernel.InterruptFrames
import LaylaOS.Kernel.UserLoads
import LaylaOS.Kernel.ReadBuffer
import LaylaOS.Kernel.FrameExhaustion
import LaylaOS.Kernel.UdpReceive
import LaylaOS.Kernel.WakeUp
import LaylaOS.User.ParseIp
import LaylaOS.User.Nano
