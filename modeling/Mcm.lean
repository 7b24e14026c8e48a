import Mcm.Basic
import Mcm.Catalog
import Mcm.Base64
import Mcm.Depgraph
import Mcm.Bash.Lexer
import Mcm.Shlib.Quote
import Mcm.Shlib.Script
import Mcm.Shlib.WriteOrder
import Mcm.Shlib.HereDoc
import Mcm.Os
import Mcm.Exec.System
import Mcm.Exec.Logger
import Mcm.Exec.Simulated
import Mcm.Shlib.Comment
import Mcm.Capnp
import Mcm.Lua.State
import Mcm.Lua.Copy
import Mcm.Lua.Luacat
import Mcm.Lua.Program
import Mcm.Bash.Run
import Mcm.Shlib.Rerun
import Mcm.Shlib.Read
import Mcm.Exec.ReadOnly
import Mcm.Lua.Balance
import Mcm.Shlib.Apply
import Mcm.Lua.Resources
import Mcm.Lua.ResourceArgs
import Mcm.Lua.CopyImage
import Mcm.Capnp.Interface
import Mcm.Shlib.FailingWriter
