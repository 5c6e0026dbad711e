import SimpleNF.Schedule
import SimpleNF.Nic.Queues
import SimpleNF.Nic.WorkQueue
import SimpleNF.Nic.CompletionQueue
import SimpleNF.Rpc.CircularBuffer
import SimpleNF.Rpc.Context
import SimpleNF.Bytes
import SimpleNF.Rpc.Message
import SimpleNF.Rpc.Transport
import SimpleNF.Worker.Batch
import SimpleNF.Rpc.SendSlots
import SimpleNF.Rpc.Receive
import SimpleNF.Worker.Loop
import SimpleNF.Worker.Shutdown
import SimpleNF.Rpc.Occupancy
import SimpleNF.Rpc.Create
import SimpleNF.Rpc.BufferSet
import SimpleNF.Rpc.Registered
import SimpleNF.Rpc.SlotRanges
import SimpleNF.Nic.Scan
import SimpleNF.Rpc.ReceiveCall
import SimpleNF.Worker.Classify
import SimpleNF.Rpc.WireFormat
import SimpleNF.Rpc.Laps
import SimpleNF.Rpc.StatsContainer
import SimpleNF.Rpc.Execution
import SimpleNF.Worker.System
import SimpleNF.Worker.Window
import SimpleNF.Worker.Progress
import SimpleNF.Worker.Capacity
import SimpleNF.Worker.Node
import SimpleNF.Rpc.Registration
import SimpleNF.Main
import SimpleNF.Worker.Server
import SimpleNF.Worker.Exit
import SimpleNF.Rpc.DumpHex
import SimpleNF.Rpc.StatsStore
import SimpleNF.Rpc.Delivery
import SimpleNF.Worker.Hooks
import SimpleNF.Worker.Join
import SimpleNF.Worker.Latency
