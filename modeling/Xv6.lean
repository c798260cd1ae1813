import Xv6.Lib.Code
import Xv6.Lib.Own
import Xv6.Lib.Run
import Xv6.Lib.Chunk
import Xv6.Swap.PageOut
import Xv6.Signal.Zombie
import Xv6.Signal.Delivery
import Xv6.Signal.Handler
import Xv6.Signal.Limit
import Xv6.Mkfs.Consistent
import Xv6.Mkfs.Lookup
import Xv6.Shell.Block
import Xv6.Shell.Log
import Xv6.Shell.Table
import Xv6.Shell.Revoke
import Xv6.Swap.Device
import Xv6.Swap.Traces
import Xv6.Swap.Victim
import Xv6.Swap.Round
import Xv6.Swap.Exhaust
import Xv6.Swap.Release
import Xv6.Swap.Progress
import Xv6.Swap.Copyout
import Xv6.Swap.Resize
import Xv6.Signal.Copyout
import Xv6.Signal.Schedule
import Xv6.Signal.Switch
import Xv6.Signal.Console
import Xv6.Shell.Login
import Xv6.Shell.Chmod
import Xv6.Signal.Fork
import Xv6.Shell.Clean
import Xv6.Shell.Reload
import Xv6.Swap.Inherit
import Xv6.Kernel.Pipe
import Xv6.Kernel.Sleep
import Xv6.Shell.Runcmd
import Xv6.Kernel.Room
import Xv6.User.Objects
import Xv6.User.Grep
