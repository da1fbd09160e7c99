import Xv6.Resource.Brackets
import Xv6.Log.Crash
import Xv6.Log.Admission
import Xv6.Pipes.Fifo
import Xv6.Processes.Reaping
import Xv6.Processes.Kill
import Xv6.Files.Accounting
import Xv6.Buffers.Flat
import Xv6.Pipes.Wakeup
import Xv6.Console.Echo
import Xv6.Console.Lines
import Xv6.Shell.Accepts
import Xv6.Storage.SharedWrites
import Xv6.Image.Links
import Xv6.Access.Groups
import Xv6.Identity.Setgroups
import Xv6.Access.Chown
import Xv6.Memory.Robust
import Xv6.Database.Duplicates
import Xv6.Database.Passwords
import Xv6.Buffers.Order
import Xv6.Log.Chunks
import Xv6.Names.Paths
import Xv6.Grep.Matching
import Xv6.Memory.Primitives
