import AvrBridge.Window
import AvrBridge.Lts
import AvrBridge.Fifo
import AvrBridge.Mask
import AvrBridge.Rust
import AvrBridge.BufferHandle
import AvrBridge.ConstCircularBuffer
import AvrBridge.ConstRefinement
import AvrBridge.ConstChecked
import AvrBridge.BlockCopies
import AvrBridge.CircularBuffer
import AvrBridge.CircularRefinement
import AvrBridge.WriteStr
import AvrBridge.BufferPool
import AvrBridge.PoolRing
import AvrBridge.PoolAccounting
import AvrBridge.PoolExhaustion
import AvrBridge.PoolOwners
import AvrBridge.Allocator
import AvrBridge.AllocatorBlocks
import AvrBridge.AsyncQueue
import AvrBridge.AsyncQueueRing
import AvrBridge.FlatBuffer
import AvrBridge.FlatRuns
import AvrBridge.Ft240x
import AvrBridge.Ft240xEdges
import AvrBridge.Ft240xBus
import AvrBridge.AvrUart
import AvrBridge.Usart1FlowControl
import AvrBridge.Usart1Framing
import AvrBridge.Usart1Overrun
import AvrBridge.Usart1Control
import AvrBridge.Usart1Transmit
import AvrBridge.Usart1Flush
import AvrBridge.Timer
import AvrBridge.TimerRuns
import AvrBridge.Executor
import AvrBridge.Wakeups
import AvrBridge.ExecutorSleep
import AvrBridge.Tasks
import AvrBridge.Messages
import AvrBridge.Ft240xTransfers
import AvrBridge.Ft240xReads
import AvrBridge.Ft240xWrites
import AvrBridge.Ft240xReadTo
import AvrBridge.UartToUsb
import AvrBridge.UsbFt240
import AvrBridge.UsbFt240Packets
import AvrBridge.UsbFt240Tx
import AvrBridge.UsbFt240Duplex
import AvrBridge.UsbFt240Futures
import AvrBridge.UsbFt240Lines
import AvrBridge.Firmware
import AvrBridge.FirmwareInvariant
import AvrBridge.UsbToUart
import AvrBridge.Framing
import AvrBridge.FirmwareTrace
import AvrBridge.FirmwareFrames
import AvrBridge.FirmwareFlow
import AvrBridge.FirmwareWire
import AvrBridge.FirmwareProgress
import AvrBridge.FirmwareTick
import AvrBridge.Bridge
import AvrBridge.BridgeLines
import AvrBridge.BridgeSteps
import AvrBridge.BridgeProgress
import AvrBridge.BridgeWakeups
import AvrBridge.Ft240Chip
import AvrBridge.FirmwareBuffers
import AvrBridge.BridgeDelay
import AvrBridge.BridgeFairness
import AvrBridge.BridgeUnplugged
import AvrBridge.RingEquivalence
import AvrBridge.BridgeWork
import AvrBridge.FirmwareChip
