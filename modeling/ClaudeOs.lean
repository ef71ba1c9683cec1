import ClaudeOs.Net.Receive
import ClaudeOs.Mem.Watch
import ClaudeOs.Mm.Fork
import ClaudeOs.Mem.Ranges
import ClaudeOs.Sched.Sleep
import ClaudeOs.Sched.Continue
import ClaudeOs.Sched.Exit
import ClaudeOs.Signal.Threads
import ClaudeOs.Overflow
import ClaudeOs.Wifi.Installs
import ClaudeOs.Mm.Pool
import ClaudeOs.Fat.Requests
import ClaudeOs.Storage.Nodes
import ClaudeOs.Console.Telnet
import ClaudeOs.Fs.Ready
import ClaudeOs.Net.Backlog
import ClaudeOs.Net.Binding
import ClaudeOs.Net.Finish
import ClaudeOs.Net.Conversations
import ClaudeOs.Net.Deadlines
import ClaudeOs.Fs.PipeRoom
import ClaudeOs.Fs.Vectored
import ClaudeOs.Fs.Fifo
import ClaudeOs.Fs.Descriptors
import ClaudeOs.Fs.FailedCalls
import ClaudeOs.Fs.Offsets
import ClaudeOs.Fs.Create
import ClaudeOs.Elf.Loading
import ClaudeOs.Cbox.Glob
import ClaudeOs.Cbox.Sed
