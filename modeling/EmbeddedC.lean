import EmbeddedC.Lib.Machine
import EmbeddedC.Lib.Slots
import EmbeddedC.Lib.MessageQueue
import EmbeddedC.Lib.Scan
import EmbeddedC.Lib.Ledger
import EmbeddedC.Lib.Mailbox
import EmbeddedC.ClientService.TcpAccounting
import EmbeddedC.ClientService.TcpOwnership
import EmbeddedC.ClientService.TcpWaiting
import EmbeddedC.ClientService.ProducerServer
import EmbeddedC.ClientService.ProducerDeadlock
import EmbeddedC.ClientService.ProducerDispatch
import EmbeddedC.ClientService.ClassicHandover
import EmbeddedC.ClientService.ClassicAccept
import EmbeddedC.ClientService.UdpProgress
import EmbeddedC.ClientService.UdpAccounting
import EmbeddedC.Chatroom.System
import EmbeddedC.Chatroom.Broadcast
import EmbeddedC.Chatroom.Order
import EmbeddedC.Chatroom.Login
import EmbeddedC.Chatroom.Leaving
import EmbeddedC.Chatroom.WakeUp
import EmbeddedC.Chatroom.Delivery
import EmbeddedC.Chatroom.Registry
import EmbeddedC.Chatroom.UserList
import EmbeddedC.SharedChat.Requests
import EmbeddedC.SharedChat.Deliveries
import EmbeddedC.SharedChat.Rollback
import EmbeddedC.LifeSim.Conservation
import EmbeddedC.LifeSim.Exclusion
import EmbeddedC.LinkLayer.Checksum
import EmbeddedC.UserTable.Growth
import EmbeddedC.Interpreter.Lines
import EmbeddedC.Interpreter.Storage
import EmbeddedC.Interpreter.RunLoop
import EmbeddedC.Interpreter.Redirection
import EmbeddedC.TextEditor.Saving
import EmbeddedC.FileManager.Independence
import EmbeddedC.Arrays.Spiral
import EmbeddedC.Bypass.Bounds
import EmbeddedC.UserList.Buffer
import EmbeddedC.SharedChat.LoginName
import EmbeddedC.Dictionary.Exit
import EmbeddedC.FileManager.Selection
import EmbeddedC.KernelBuffer.Procfs
import EmbeddedC.KernelBuffer.Device
import EmbeddedC.KernelBuffer.Sysfs
import EmbeddedC.NetworkLayer.Client
import EmbeddedC.Bypass.Arguments
import EmbeddedC.ClientService.SerialServer
import EmbeddedC.Counter.Threads
import EmbeddedC.Counter.Values
import EmbeddedC.Ipc.Channels
import EmbeddedC.Ipc.Fifos
import EmbeddedC.Ipc.Pipes
import EmbeddedC.KernelBuffer.IntAttribute
import EmbeddedC.Lib.Family
import EmbeddedC.LinkLayer.Client
import EmbeddedC.Processes.Generations
import EmbeddedC.Queues.Posix
import EmbeddedC.Queues.SystemV
import EmbeddedC.Semaphores.Posix
import EmbeddedC.Semaphores.SystemV
import EmbeddedC.SharedChat.Shutdown
import EmbeddedC.Sockets.Datagram
import EmbeddedC.Sockets.Stream
