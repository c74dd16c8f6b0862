import Ldap3.Controls.ContentSync
import Ldap3.Controls.PagedResults
import Ldap3.Controls.Requests
import Ldap3.Protocol.Envelope
import Ldap3.Protocol.Stall
import Ldap3.Protocol.Chunks
import Ldap3.Conn.Msgid
import Ldap3.Conn.Release
import Ldap3.Filter.Extensible
import Ldap3.Filter.Sound
import Ldap3.Conn.SingleOp
import Ldap3.Conn.Network
import Ldap3.Conn.Establish
import Ldap3.Conn.Progress
import Ldap3.Protocol.Sasl
import Ldap3.Ldap.Wire
import Ldap3.Exop.EndTxn
import Ldap3.Exop.Requests
import Ldap3.Ldap.Gssapi
import Ldap3.Ldap.Modifiers
import Ldap3.Ldap.Peer
import Ldap3.Search.Entry
import Ldap3.Search.Finish
import Ldap3.Search.Session
import Ldap3.Search.Whole
import Ldap3.Lber.Calls
import Ldap3.Lber.Shortest
import Ldap3.Controls.MatchedValues
import Ldap3.Util.Unescape
import Ldap3.Util.DnEscape
import Ldap3.Util.UrlExt
