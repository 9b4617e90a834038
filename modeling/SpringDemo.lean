import SpringDemo.Bio.Server
import SpringDemo.Blog.Article
import SpringDemo.Netty.Chat
import SpringDemo.Netty.Frames
import SpringDemo.Netty.OneLoop
import SpringDemo.Nio.Chat
import SpringDemo.Nio.Failures
import SpringDemo.Nio.ReadLoop
import SpringDemo.Nio.Readable
import SpringDemo.Rpc.CallProgress
import SpringDemo.Rpc.Framing
import SpringDemo.Rpc.Hierarchy
import SpringDemo.Rpc.LiveServer
import SpringDemo.Rpc.PoolBlocks
import SpringDemo.Rpc.Proxy
import SpringDemo.Rpc.ServerRuns
import SpringDemo.Rpc.Shutdown
import SpringDemo.Rpc.Wire
import SpringDemo.Swagger.Accounts
import SpringDemo.Swagger.Concurrent
import SpringDemo.Swagger.Nameless
