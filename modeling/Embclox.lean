import Embclox.Async
import Embclox.Bits
import Embclox.Boot
import Embclox.Bytes
import Embclox.Channel
import Embclox.Circular
import Embclox.Cmdline
import Embclox.Critical
import Embclox.Dma
import Embclox.E1000
import Embclox.E1000Nic
import Embclox.E1000Rx
import Embclox.E1000Wire
import Embclox.EdgeIrq
import Embclox.Effect
import Embclox.Exec
import Embclox.Gpadl
import Embclox.History
import Embclox.Hypercall
import Embclox.Ioapic
import Embclox.Ipv4
import Embclox.Isr
import Embclox.IsrScan
import Embclox.Loop
import Embclox.Matching
import Embclox.Memory
import Embclox.Microwire
import Embclox.Mmio
import Embclox.Netvsc
import Embclox.NetvscAck
import Embclox.NetvscDelivery
import Embclox.NetvscDrain
import Embclox.NetvscFrame
import Embclox.NetvscGrowth
import Embclox.NetvscInit
import Embclox.NetvscLoops
import Embclox.NetvscMoves
import Embclox.NetvscMtu
import Embclox.NetvscNic
import Embclox.NetvscRanges
import Embclox.NetvscResponses
import Embclox.NetvscRun
import Embclox.NetvscRx
import Embclox.NetvscSend
import Embclox.NetvscSteps
import Embclox.NetvscTx
import Embclox.NetvscVersion
import Embclox.NetvscView
import Embclox.NetvscWake
import Embclox.NicIrq
import Embclox.Nvsp
import Embclox.Offers
import Embclox.OpenChannel
import Embclox.PageTable
import Embclox.Pci
import Embclox.Probe
import Embclox.ProbePci
import Embclox.ProbeVmbus
import Embclox.RecvTimeout
import Embclox.Registry
import Embclox.Ring
import Embclox.RingFifo
import Embclox.RingPayload
import Embclox.RingRecv
import Embclox.RingSend
import Embclox.RingWire
import Embclox.RndisBuild
import Embclox.RndisParse
import Embclox.Runtime
import Embclox.Sint
import Embclox.Slots
import Embclox.Smp
import Embclox.SmpTime
import Embclox.Synic
import Embclox.Synthvid
import Embclox.Time
import Embclox.Tulip
import Embclox.TulipEeprom
import Embclox.TulipRx
import Embclox.TulipTx
import Embclox.VectorAlloc
import Embclox.VectorWords
import Embclox.VmbusConnect
import Embclox.WaitMatch
import Embclox.Words
