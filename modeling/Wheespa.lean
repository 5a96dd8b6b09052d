import Wheespa.Library.Transition
import Wheespa.BinaryTree.FiniteMap
import Wheespa.BinaryTree.CheckedInsert
import Wheespa.BinaryTree.Removal
import Wheespa.BinaryTree.Snapshot
import Wheespa.BinaryTree.Traversal
import Wheespa.Server.FindInsert
import Wheespa.Server.Visit
import Wheespa.WheespaTree
import Wheespa.BinaryTree.Store
import Wheespa.Server.TreeStore
import Wheespa.Library.Regex
import Wheespa.Library.Sql.Semantics
import Wheespa.Dbapi
import Wheespa.Library.Columns
import Wheespa.TableListing
import Wheespa.Sha
import Wheespa.HexDigest
import Wheespa.HandleRequest
import Wheespa.RequestFormat
import Wheespa.Accounts
import Wheespa.Server.Authentication
import Wheespa.Insertion
import Wheespa.PrepareDatabase
import Wheespa.HandleReceived
import Wheespa.RequestQueries
import Wheespa.WheespaServer
import Wheespa.Server.Origin
import Wheespa.Server.MessageFormat
import Wheespa.Server.OnlineList
import Wheespa.Server.Administration
import Wheespa.Server.Registration
import Wheespa.Server.Impersonation
import Wheespa.Library.Framing
import Wheespa.SocketStream
import Wheespa.Library.Erasure
import Wheespa.Server.AcceptLoop
import Wheespa.Server.Reaping
import Wheespa.Library.Decimal
import Wheespa.StoredValues
import Wheespa.RequestGrammar
import Wheespa.Server.Delivery
import Wheespa.AdminQueries
import Wheespa.Server.Acceptance
import Wheespa.Server.MalformedMessage
import Wheespa.Server.Addressing
import Wheespa.Server.Disconnection
import Wheespa.RequestTemplates
import Wheespa.Server.ConnectionHandler
import Wheespa.Server.Replies
import Wheespa.Server.Ownership
import Wheespa.RegisterUser
import Wheespa.Server.AdminRights
import Wheespa.Server.RegisteredRemoval
import Wheespa.Server.CommandIdentity
import Wheespa.Server.Listing
import Wheespa.RequestLookups
import Wheespa.Library.Lifecycle
import Wheespa.DatabaseHandle
import Wheespa.Library.Interference
import Wheespa.Library.Simulation
import Wheespa.BinaryTree.Way
import Wheespa.BinaryTree.Writes
import Wheespa.BinaryTree.FindWalk
import Wheespa.BinaryTree.InsertWalk
import Wheespa.BinaryTree.TraverseWalk
import Wheespa.Server.SteppedFind
import Wheespa.Server.AccountRuns
import Wheespa.Server.Wire
import Wheespa.Server.Shutdown
import Wheespa.Server.Leaks
import Wheespa.ExistingFile
import Wheespa.Server.Restart
import Wheespa.OptionParser
import Wheespa.WheespaOpts
import Wheespa.CommandLine
import Wheespa.GetOpts
